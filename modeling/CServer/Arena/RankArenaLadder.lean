import CServer.Arena.RankArenaRanking

/-! # The ladder in every run

Every step keeps the ladder one if the two updates of an attack won from behind succeed or fail
together. `Boot.Numbered` is what the start needs of the table: the players it loads have distinct
orders, none above their number. -/
namespace CServer.Arena
open CServer.Lib Function Option
open List hiding lookup

open RankArena

/-! ## Won attacks -/

structure Win where
  attacker : ℕ
  target : ℕ
  first : Db
  second : Db

def Request.won (r : Request) : Answer → Option Win
  | .fight winner first second _ _ =>
    match r.at' with
    | .attackSgk target .fight => if winner = 1 then some ⟨r.pid, target, first, second⟩ else none
    | _ => none
  | _ => none

def RankArena.won (s : RankArena) : Act → Option Win
  | .fightCheck pid (some target) (some winner) first second _ =>
    if s.fightList pid = some target ∧ winner = 1 then some ⟨pid, target, first, second⟩ else none
  | .reply rid answer => (lookup Request.rid rid s.inFlight).bind fun r => r.won answer
  | _ => none

/-- If the attacker stands behind his target, the two updates succeed or fail together. -/
def Win.Atomic (s : RankArena) (w : Win) : Prop :=
  ∀ o1 ∈ s.order w.attacker, ∀ o2 ∈ s.order w.target, o2 < o1 → w.first.updated = w.second.updated

instance (s : RankArena) (w : Win) : Decidable (w.Atomic s) :=
  inferInstanceAs (Decidable (∀ o1 ∈ s.order w.attacker, ∀ o2 ∈ s.order w.target,
    o2 < o1 → w.first.updated = w.second.updated))

/-- The two have each other's order after the step, or the orders they had. -/
def Win.Settled (s s' : RankArena) (w : Win) : Prop :=
  s'.order w.attacker = s.order w.target ∧ s'.order w.target = s.order w.attacker ∨
    s'.order w.attacker = s.order w.attacker ∧ s'.order w.target = s.order w.target

variable {s s' s'' : RankArena}

theorem RankArena.Kept.settled (h : Kept s s') (w : Win) : w.Settled s s' :=
  .inr ⟨congrFun h.order _, congrFun h.order _⟩

theorem Win.Settled.congr {w : Win} {t : RankArena} (h : w.Settled s s') (hfirst : Kept s'' s) (hlast : Kept s' t) :
    w.Settled s'' t := by
  rw [Win.Settled, hlast.order, ← hfirst.order]
  exact h

theorem Win.Atomic.congr {w : Win} (h : w.Atomic s) (hkept : Kept s s') : w.Atomic s' := by
  rw [Win.Atomic, hkept.order]
  exact h

def Win.fight (w : Win) (s : RankArena) : RankArena := fightWon s w.attacker w.target w.first w.second

theorem Win.fight_settled (hs : s.Inv) (w : Win) (hw : w.Atomic s) :
    Onward s (w.fight s) ∧ w.Settled s (w.fight s) := by
  have hkept : ∀ {t : RankArena}, Kept s t → Onward s t ∧ w.Settled s t := fun h => ⟨h.onward hs, h.settled w⟩
  cases hp : s.all w.attacker with
  | none =>
    simp only [fight, fightWon, getPlayer, hp]
    exact hkept (.refl s)
  | some p =>
    cases hq : s.all w.target with
    | none =>
      simp only [fight, fightWon, getPlayer, hp, hq]
      exact hkept (.refl s)
    | some q =>
      by_cases hle : p.order ≤ q.order
      · exact hkept (fightWon_kept _ _ hs hp hq (.inl hle))
      · have hlt : q.order < p.order := Nat.lt_of_not_le hle
        have hsame := hw p.order (order_some hp) q.order (order_some hq) hlt
        cases hsecond : w.second.updated with
        | false => exact hkept (fightWon_kept _ _ hs hp hq (.inr ⟨hsame.trans hsecond, hsecond⟩))
        | true =>
          have hex := fightWon_exchanged w.first w.second hs hp hq hlt (hsame.trans hsecond) hsecond
          refine ⟨hex.onward hs (order_some hp) (order_some hq), .inl ⟨?_, ?_⟩⟩
          · rw [fight, hex.order, update_of_ne (ne_of_order_lt hp hq hlt).symm, update_self, order_some hq]
          · rw [fight, hex.order, update_self, order_some hp]

/-- Distinct players have distinct orders, and `ArenaQueue` has everyone at his order. -/
structure RankArena.Ladder (s : RankArena) : Prop where
  distinct : ∀ i j k, s.order i = some k → s.order j = some k → i = j
  queued : ∀ i k, s.order i = some k → s.arenaQueue k = some i

theorem RankArena.Inv.isLadder (hs : s.Inv) : s.Ladder where
  distinct i j k hi hj := by
    rw [hs.ranked, (hs.ranked j k).mp hj] at hi
    exact (some.inj hi).symm
  queued i k := (hs.ranked i k).mp

theorem Win.atomic_of_ladder (hs : s.Inv) (w : Win) (h : (w.fight s).Ladder) : w.Atomic s := by
  intro o1 ho1 o2 ho2 hlt
  by_contra hdiff
  obtain ⟨p, hp, rfl⟩ := map_eq_some_iff.mp ho1
  obtain ⟨q, hq, rfl⟩ := map_eq_some_iff.mp ho2
  obtain ⟨o, hi, hj⟩ := fightWon_shared w.first w.second hs hp hq hlt hdiff
  exact ne_of_order_lt hp hq hlt (h.distinct _ _ _ hj hi)

/-! ## Requests -/

theorem onArenaJoin_onward (hs : s.Inv) (pid : ℕ) (db : Db) (ais : List (ℕ × Db)) :
    Onward s (onArenaJoin s pid db ais) := by
  obtain ⟨s1, h1, hon⟩ := addPlayer_onward hs pid db ais
  simp only [onArenaJoin, h1]
  split
  · exact hon
  · exact hon.trans ((start_kept s1 pid .neighbors).onward hon.inv)

theorem onArenaAttackSgk_kept (s : RankArena) (pid targetPos targetId : ℕ) :
    Kept s (onArenaAttackSgk s pid targetPos targetId) := by
  unfold onArenaAttackSgk
  split
  · split
    · exact .refl s
    · split
      · exact start_kept s pid _
      · exact .refl s
  · exact .refl s

theorem onArenaAttack_kept (s : RankArena) (pid targetId : ℕ) : Kept s (onArenaAttack s pid targetId) := by
  unfold onArenaAttack
  split
  · split
    · exact start_kept s pid _
    · exact .refl s
  · exact .refl s

section FightCheck
variable (pid target winner : ℕ) (first second : Db) (vpos : List ℕ)

theorem onArenaFightCheck_won (h : s.fightList pid = some target) :
    Kept ((⟨pid, target, first, second⟩ : Win).fight s)
      (onArenaFightCheck s pid (some target) (some 1) first second vpos) := by
  rw [onArenaFightCheck, if_neg (not_not.mpr h)]
  split
  · exact refreshEnemyList_kept _ pid _
  · rename_i hmissing
    have hfight : fightWon s pid target first second = s := by
      unfold fightWon
      split
      · rename_i attacker target hp hq
        exact absurd hq (hmissing attacker target hp)
      · rfl
    rw [Win.fight, hfight]
    exact .refl s

theorem onArenaFightCheck_kept (h : ¬ (s.fightList pid = some target ∧ winner = 1)) :
    Kept s (onArenaFightCheck s pid (some target) (some winner) first second vpos) := by
  rw [onArenaFightCheck]
  split
  · exact .refl s
  · rename_i hlist
    split
    · rw [if_neg fun hwinner => h ⟨not_not.mp hlist, hwinner⟩]
      exact start_kept s pid _
    · exact .refl s

end FightCheck

variable (sgk : Bool)

theorem joinReply_kept (s : RankArena) (r : Request) (vpos : List ℕ) :
    Kept s (joinReply sgk s r vpos) := by
  have h := finish_kept s r.rid
  simp only [joinReply]
  split
  · exact h
  · split
    · exact h
    · split
      · exact h.trans (refreshEnemyList_kept _ _ _)
      · exact h.trans (refreshEnemyList_kept _ _ _)

theorem vipReply_kept (hs : s.Agrees) (r : Request) (count time : ℕ) (db : Db) :
    Kept s (vipReply s r count time db) := by
  have h := finish_kept s r.rid
  simp only [vipReply]
  split
  · exact h
  · rename_i p hp
    exact h.trans (setArenaInfo_kept _ (h.agrees hs) hp rfl)

theorem refreshBoth_kept (s : RankArena) (attackerId targetId : ℕ) (vpos vposTarget : List ℕ) :
    Kept s (refreshBoth s attackerId targetId vpos vposTarget) :=
  (refreshEnemyList_kept s attackerId _).trans (refreshEnemyList_kept _ targetId _)

theorem reply_won (s : RankArena) {r : Request} {answer : Answer} {w : Win} (hw : w ∈ r.won answer) :
    ∃ t, Kept s t ∧ Kept (w.fight t) (reply sgk s r answer) := by
  cases answer with
  | failed => exact nomatch hw
  | ok => exact nomatch hw
  | neighbors vpos => exact nomatch hw
  | vip db => exact nomatch hw
  | fight winner first second vpos vposTarget =>
    simp only [Request.won] at hw
    split at hw
    · rename_i target hat
      split at hw
      · rename_i hwinner
        obtain rfl := some.inj hw
        refine ⟨s.finish r.rid, finish_kept s r.rid, ?_⟩
        simp only [reply, hat, if_pos hwinner]
        exact refreshBoth_kept _ _ _ _ _
      · exact nomatch hw
    · exact nomatch hw

theorem reply_kept (hs : s.Agrees) (sgk : Bool) {r : Request} {answer : Answer} (hw : r.won answer = none) :
    Kept s (reply sgk s r answer) := by
  cases answer with
  | failed => exact finish_kept s r.rid
  | ok =>
    simp only [reply]
    split
    · split
      · exact .refl s
      · exact wait_kept s r _
    · split
      · exact ⟨rfl, fun _ _ => rfl, rfl, rfl⟩
      · split
        · exact .refl s
        · exact wait_kept s r _
    · exact .refl s
  | neighbors vpos =>
    simp only [reply]
    split
    · exact joinReply_kept sgk s r vpos
    · exact .refl s
  | vip db =>
    simp only [reply]
    split
    · exact vipReply_kept hs r _ _ db
    · exact .refl s
  | fight winner first second vpos vposTarget =>
    by_cases hfight : ∃ target, r.at' = .attackSgk target .fight
    · obtain ⟨target, hat⟩ := hfight
      have hwinner : winner ≠ 1 := by
        intro hwinner
        simp only [Request.won, hat, if_pos hwinner] at hw
        exact nomatch hw
      simp only [reply, hat, if_neg hwinner]
      split
      · exact finish_kept s r.rid
      · exact wait_kept s r _
    · simp only [reply]
      split
      · rename_i target hat
        exact absurd ⟨target, hat⟩ hfight
      · exact .refl s

/-! ## Steps -/

def Careful (s : RankArena) (act : Act) : Prop := ∀ w ∈ s.won act, w.Atomic s

instance (s : RankArena) (act : Act) : Decidable (Careful s act) :=
  inferInstanceAs (Decidable (∀ w ∈ s.won act, w.Atomic s))

/-- What is asked of a step: no place is given up, and a won attack exchanges two orders or leaves them. -/
def Proper (s : RankArena) (act : Act) : Prop :=
  ∀ s', step sgk s act = .ok s' →
    (∀ k, (∃ i, s.order i = some k) → ∃ i, s'.order i = some k) ∧ ∀ w ∈ s.won act, w.Settled s s'

theorem step_won {act : Act} {w : Win} (hw : w ∈ s.won act) :
    ∃ t s', step sgk s act = .ok s' ∧ Kept s t ∧ Kept (w.fight t) s' := by
  unfold RankArena.won at hw
  split at hw
  · rename_i pid target winner first second vpos
    split at hw
    · rename_i hwon
      obtain rfl := some.inj hw
      obtain ⟨hlist, rfl⟩ := hwon
      exact ⟨s, _, rfl, .refl s, onArenaFightCheck_won pid target first second vpos hlist⟩
    · exact nomatch hw
  · rename_i rid answer
    obtain ⟨r, hr, hw⟩ := bind_eq_some_iff.mp hw
    obtain ⟨t, hfirst, hlast⟩ := reply_won sgk s hw
    refine ⟨t, _, ?_, hfirst, hlast⟩
    rw [step, hr]
  · exact nomatch hw

theorem step_quiet (hs : s.Inv) {act : Act} (hw : s.won act = none) :
    ∃ s', step sgk s act = .ok s' ∧ Onward s s' := by
  cases act with
  | clock seconds =>
    have hkept : Kept s { s with now := s.now + seconds } := ⟨rfl, fun _ _ => rfl, rfl, rfl⟩
    exact ⟨_, rfl, hkept.onward hs⟩
  | join pid db ais => exact ⟨_, rfl, onArenaJoin_onward hs pid db ais⟩
  | attackSgk pid targetPos targetId => exact ⟨_, rfl, (onArenaAttackSgk_kept s pid targetPos targetId).onward hs⟩
  | attack pid targetId => exact ⟨_, rfl, (onArenaAttack_kept s pid targetId).onward hs⟩
  | fightCheck pid targetId winner first second vpos =>
    refine ⟨_, rfl, Kept.onward ?_ hs⟩
    cases targetId with
    | none => exact .refl s
    | some target =>
      cases winner with
      | none => exact .refl s
      | some winner =>
        apply onArenaFightCheck_kept
        intro hwon
        rw [RankArena.won, if_pos hwon] at hw
        exact nomatch hw
  | reply rid answer =>
    rw [RankArena.won] at hw
    rw [step]
    cases hr : lookup Request.rid rid s.inFlight with
    | none => exact ⟨s, rfl, (Kept.refl s).onward hs⟩
    | some r =>
      rw [hr] at hw
      exact ⟨_, rfl, (reply_kept hs.agrees sgk hw).onward hs⟩

theorem step_advances (hs : s.Inv) {act : Act} (hact : Careful s act) :
    ∃ s', step sgk s act = .ok s' ∧ Onward s s' ∧ ∀ w ∈ s.won act, w.Settled s s' := by
  cases hwon : s.won act with
  | none =>
    obtain ⟨s', hstep, hon⟩ := step_quiet sgk hs hwon
    exact ⟨s', hstep, hon, nofun⟩
  | some w =>
    obtain ⟨t, s', hstep, hfirst, hlast⟩ := step_won sgk hwon
    obtain ⟨hon, hsettled⟩ := w.fight_settled (hfirst.inv hs) ((hact w hwon).congr hfirst)
    refine ⟨s', hstep, ((hfirst.onward hs).trans hon).trans (hlast.onward hon.inv), ?_⟩
    intro w' hw'
    rw [← some.inj hw']
    exact hsettled.congr hfirst hlast

theorem careful_of_ladder (hs : s.Inv) {act : Act} (hstep : step sgk s act = .ok s') (h : s'.Ladder) :
    Careful s act := by
  intro w hw
  obtain ⟨t, s1, h1, hfirst, hlast⟩ := step_won sgk hw
  obtain rfl := ok_unique h1 hstep
  have hfight : (w.fight t).Ladder := by
    refine ⟨?_, ?_⟩
    · rw [← hlast.order]
      exact h.distinct
    · rw [← hlast.order, ← hlast.arenaQueue]
      exact h.queued
  have hatomic := w.atomic_of_ladder (hfirst.inv hs) hfight
  rw [Win.Atomic, hfirst.order] at hatomic
  exact hatomic

/-! ## The start -/

structure RankArena.Standing (s : RankArena) : Prop where
  distinct : ∀ i j k, s.order i = some k → s.order j = some k → i = j
  agrees : s.Agrees
  bounded : ∀ i k, s.order i = some k → k ≤ s.count

theorem create_standing (hs : s.Standing) (id : ℕ) (db : Db) : (s.create id db).1.Standing := by
  rcases create_cases hs.agrees id db with ⟨s1, hcreate, hkept⟩ | ⟨s1, p, hcreate, -, hnew⟩
  · rw [hcreate]
    refine ⟨?_, hkept.agrees hs.agrees, ?_⟩
    · rw [hkept.order]
      exact hs.distinct
    · rw [hkept.order, hkept.count]
      exact hs.bounded
  · rw [hcreate]
    have hlast : ∀ i, s.order i ≠ some (s.count + 1) := fun i hi => absurd (hs.bounded i _ hi) (by omega)
    refine ⟨fun i j k hi hj => ?_, hnew.agrees, fun i k hi => ?_⟩
    · rw [hnew.order] at hi hj
      by_cases hid : i = id
      · by_cases hjd : j = id
        · rw [hid, hjd]
        · rw [hid, update_self] at hi
          rw [update_of_ne hjd, ← hi] at hj
          exact absurd hj (hlast j)
      · rw [update_of_ne hid] at hi
        by_cases hjd : j = id
        · rw [hjd, update_self] at hj
          rw [← hj] at hi
          exact absurd hi (hlast i)
        · rw [update_of_ne hjd] at hj
          exact hs.distinct i j k hi hj
    · rw [hnew.count]
      rw [hnew.order] at hi
      by_cases hid : i = id
      · rw [hid, update_self] at hi
        exact (some.inj hi).ge
      · rw [update_of_ne hid] at hi
        exact (hs.bounded i k hi).trans (Nat.le_succ _)

theorem createAIs_standing (ais : List (ℕ × Db)) :
    ∀ {s : RankArena}, s.Standing → (createAIs s ais).Standing := by
  induction ais with
  | nil => exact fun hs => hs
  | cons ai ais ih => exact fun hs => ih (create_standing hs ai.1 ai.2)

def loadable (db : ℕ → Db) (rows : List (ℕ × Row)) : List (ℕ × Row) := rows.filter fun r => (db r.1).loaded.isSome

structure RankArena.Holds (s : RankArena) (seen : List (ℕ × Row)) : Prop where
  order : ∀ i k, s.order i = some k ↔ ∃ r ∈ seen, r.1 = i ∧ r.2.order = k
  count : s.count = seen.length

theorem newPlayer_holds {seen : List (ℕ × Row)} (hs : s.Holds seen) {r : ℕ × Row} {db : ℕ → Db}
    (hrow : s.rows r.1 = some r.2) (hnew : ∀ q ∈ seen, q.1 ≠ r.1) :
    (s.newPlayer r.1 (db r.1)).1.Holds (seen ++ loadable db [r]) ∧ (s.newPlayer r.1 (db r.1)).1.rows = s.rows := by
  cases hload : (s.aiJoinRankArena r.1).loadPlayerArenaInfo r.1 (db r.1) with
  | none =>
    have hdb : (db r.1).loaded = none := by
      cases hdb : (db r.1).loaded with
      | none => rfl
      | some l => simp [loadPlayerArenaInfo, aiJoinRankArena, hdb, hrow] at hload
    rw [newPlayer_none hload]
    simp only [loadable, filter_cons, hdb, filter_nil]
    rw [if_neg (by simp), append_nil]
    exact ⟨⟨hs.order, hs.count⟩, rfl⟩
  | some p =>
    have hdb : (db r.1).loaded.isSome := by
      cases hdb : (db r.1).loaded with
      | none => simp [loadPlayerArenaInfo, hdb] at hload
      | some l => rfl
    have hp : p.order = r.2.order := by
      have h : s.stored r.1 = some p.order := stored_of_load hload
      rw [stored, hrow] at h
      exact (some.inj h).symm
    rw [newPlayer_some hload]
    simp only [loadable, filter_cons, hdb, filter_nil, if_true]
    refine ⟨⟨fun i k => ?_, ?_⟩, rfl⟩
    · rw [order_update (s := s) rfl, hp]
      by_cases hi : i = r.1
      · subst hi
        rw [update_self]
        constructor
        · intro h
          exact ⟨r, by simp, rfl, some.inj h⟩
        · rintro ⟨q, hq, hqi, rfl⟩
          rcases mem_append.mp hq with hq | hq
          · exact absurd hqi (hnew q hq)
          · rw [mem_singleton.mp hq]
      · rw [update_of_ne hi, hs.order i k]
        constructor
        · rintro ⟨q, hq, hqi⟩
          exact ⟨q, mem_append_left _ hq, hqi⟩
        · rintro ⟨q, hq, hqi, hqk⟩
          rcases mem_append.mp hq with hq | hq
          · exact ⟨q, hq, hqi, hqk⟩
          · rw [mem_singleton.mp hq] at hqi
            exact absurd hqi.symm hi
    · rw [length_append, length_singleton, ← hs.count]

theorem loadRows_holds (db : ℕ → Db) (rows : List (ℕ × Row)) :
    ∀ {s : RankArena} (seen : List (ℕ × Row)), s.Holds seen → (∀ r ∈ rows, s.rows r.1 = some r.2) →
      DistinctKeys Prod.fst rows → (∀ r ∈ rows, ∀ q ∈ seen, q.1 ≠ r.1) →
      (loadRows db s rows).Holds (seen ++ loadable db rows) ∧ (loadRows db s rows).rows = s.rows := by
  induction rows with
  | nil =>
    intro s seen hs _ _ _
    rw [loadable, filter_nil, append_nil]
    exact ⟨hs, rfl⟩
  | cons r rows ih =>
    intro s seen hs hrows hkeys hnew
    have hkeys' := nodup_cons.mp hkeys
    obtain ⟨hone, hsame⟩ := @newPlayer_holds s seen hs r db (hrows r mem_cons_self) (hnew r mem_cons_self)
    have hone' : ((s.newPlayer r.1 (db r.1)).1.updateMaxOrder r.2.order).Holds (seen ++ loadable db [r]) :=
      ⟨hone.1, hone.2⟩
    have hrest := ih (seen ++ loadable db [r]) hone' ?_ hkeys'.2 ?_
    · rw [append_assoc, loadable, loadable, ← filter_append, singleton_append] at hrest
      exact ⟨hrest.1, hrest.2.trans hsame⟩
    · intro q hq
      exact (congrFun hsame q.1).trans (hrows q (mem_cons_of_mem r hq))
    · intro q hq q' hq'
      rcases mem_append.mp hq' with hq' | hq'
      · exact hnew q (mem_cons_of_mem r hq) q' hq'
      · have hq' := mem_singleton.mp (mem_of_mem_filter hq')
        rintro h
        rw [hq'] at h
        exact hkeys'.1 (mem_map.mpr ⟨q, hq, h.symm⟩)

namespace Boot

def loaded (b : Boot) : List (ℕ × Row) := if b.selected then loadable b.db b.table.rows else []

/-- The players loaded at the start have distinct orders, none above their number. -/
def Numbered (b : Boot) : Prop :=
  (b.loaded.map fun r => r.2.order).Nodup ∧ ∀ r ∈ b.loaded, r.2.order ≤ b.loaded.length

instance (b : Boot) : Decidable b.Numbered :=
  inferInstanceAs (Decidable ((b.loaded.map fun r => r.2.order).Nodup ∧ ∀ r ∈ b.loaded, r.2.order ≤ b.loaded.length))

variable {b : Boot}

theorem row_of_mem {r : ℕ × Row} (h : r ∈ b.table.rows) : b.table.row r.1 = some r.2 := by
  rw [Table.row, lookup_of_mem b.table.distinct h]
  rfl

theorem standing_of_holds (hb : b.Numbered) (hs : s.Holds b.loaded) (hrows : s.rows = b.table.row) : s.Standing where
  distinct i j k hi hj := by
    obtain ⟨r, hr, rfl, hrk⟩ := (hs.order i k).mp hi
    obtain ⟨q, hq, rfl, hqk⟩ := (hs.order j k).mp hj
    have heq : r = q := inj_on_of_nodup_map hb.1 hr hq (hrk.trans hqk.symm)
    rw [heq]
  agrees i k hi := by
    obtain ⟨r, hr, rfl, rfl⟩ := (hs.order i k).mp hi
    have hmem : r ∈ b.table.rows := by
      unfold loaded at hr
      split at hr
      · exact mem_of_mem_filter hr
      · exact nomatch hr
    rw [stored, hrows, row_of_mem hmem]
    rfl
  bounded i k hi := by
    obtain ⟨r, hr, rfl, rfl⟩ := (hs.order i k).mp hi
    rw [hs.count]
    exact hb.2 r hr

theorem blank_holds (b : Boot) : b.blank.Holds [] :=
  ⟨fun _ _ => ⟨nofun, fun ⟨_, hr, _⟩ => nomatch hr⟩, rfl⟩

theorem loadAll_standing (hb : b.Numbered) : b.loadAll.Standing := by
  unfold loadAll
  split
  · rename_i hselected
    obtain ⟨hholds, hrows⟩ := loadRows_holds b.db b.table.rows [] b.blank_holds (fun r hr => row_of_mem hr)
      b.table.distinct (fun _ _ _ hq => nomatch hq)
    have hloaded : b.loaded = loadable b.db b.table.rows := if_pos hselected
    rw [nil_append, ← hloaded] at hholds
    have hs := standing_of_holds hb hholds hrows
    dsimp only
    split
    · exact createAIs_standing b.ais hs
    · exact hs
  · rename_i hselected
    have hloaded : b.loaded = [] := if_neg hselected
    refine standing_of_holds hb ?_ rfl
    rw [hloaded]
    exact b.blank_holds

theorem queue_of_pids {s : RankArena} (hs : ∀ i j k, s.order i = some k → s.order j = some k → i = j) (pids : List ℕ) :
    ∀ (queue : ℕ → Option ℕ) (i k : ℕ),
      pids.foldl (fun queue pid =>
        match s.all pid with
        | none => queue
        | some p => update queue p.order (some pid)) queue k = some i ↔
        i ∈ pids ∧ s.order i = some k ∨ (∀ j ∈ pids, s.order j ≠ some k) ∧ queue k = some i := by
  induction pids with
  | nil =>
    intro queue i k
    simp
  | cons pid pids ih =>
    intro queue i k
    rw [foldl_cons, ih]
    cases hp : s.all pid with
    | none =>
      have hpid : s.order pid = none := order_none.mpr hp
      constructor
      · rintro (⟨hi, hk⟩ | ⟨hno, hk⟩)
        · exact .inl ⟨mem_cons_of_mem pid hi, hk⟩
        · refine .inr ⟨fun j hj => ?_, hk⟩
          rcases mem_cons.mp hj with rfl | hj
          · rw [hpid]
            exact nofun
          · exact hno j hj
      · rintro (⟨hi, hk⟩ | ⟨hno, hk⟩)
        · rcases mem_cons.mp hi with rfl | hi
          · rw [hpid] at hk
            exact nomatch hk
          · exact .inl ⟨hi, hk⟩
        · exact .inr ⟨fun j hj => hno j (mem_cons_of_mem pid hj), hk⟩
    | some p =>
      have hpid := order_some hp
      by_cases hkp : k = p.order
      · subst hkp
        simp only [update_self]
        constructor
        · rintro (⟨hi, hk⟩ | ⟨-, hk⟩)
          · exact .inl ⟨mem_cons_of_mem pid hi, hk⟩
          · rw [← some.inj hk]
            exact .inl ⟨mem_cons_self, hpid⟩
        · rintro (⟨hi, hk⟩ | ⟨hno, -⟩)
          · obtain rfl := hs i pid _ hk hpid
            by_cases hmem : i ∈ pids
            · exact .inl ⟨hmem, hk⟩
            · refine .inr ⟨fun j hj hjk => hmem ?_, rfl⟩
              rw [hs i j _ hk hjk]
              exact hj
          · exact absurd hpid (hno pid mem_cons_self)
      · have hother : s.order pid ≠ some k := by
          rw [hpid]
          exact fun h => hkp (some.inj h).symm
        simp only [update_of_ne hkp, mem_cons, forall_eq_or_imp]
        constructor
        · rintro (⟨hi, hk⟩ | ⟨hno, hk⟩)
          · exact .inl ⟨.inr hi, hk⟩
          · exact .inr ⟨⟨hother, hno⟩, hk⟩
        · rintro (⟨rfl | hi, hk⟩ | ⟨⟨-, hno⟩, hk⟩)
          · exact absurd hk hother
          · exact .inl ⟨hi, hk⟩
          · exact .inr ⟨hno, hk⟩

theorem start_inv (hb : b.Numbered) {pids : List ℕ} (hpids : ∀ i, (b.loadAll.all i).isSome → i ∈ pids) :
    (b.start pids).Inv := by
  have hs := loadAll_standing hb
  refine ⟨fun i k => ?_, hs.agrees, hs.bounded⟩
  have h := queue_of_pids hs.distinct pids (fun _ => none) i k
  refine Iff.trans ⟨fun hi => ?_, fun hi => ?_⟩ h.symm
  · have hall : (b.loadAll.all i).isSome := by
      obtain ⟨p, hp, -⟩ := map_eq_some_iff.mp hi
      exact isSome_of_eq_some hp
    exact .inl ⟨hpids i hall, hi⟩
  · rcases hi with hi | hi
    · exact hi.2
    · exact nomatch hi.2

end Boot

/-! ## Runs -/

theorem step_inv (s : RankArena) (act : Act) (s' : RankArena) (hs : s.Inv) (hact : Careful s act)
    (hstep : step sgk s act = .ok s') : s'.Inv := by
  obtain ⟨s1, h1, hon, -⟩ := step_advances sgk hs hact
  obtain rfl := ok_unique h1 hstep
  exact hon.inv

theorem run_proper (acts : List Act) :
    ∀ {s : RankArena}, s.Inv → Along (step sgk) Careful s acts → Along (step sgk) (Proper sgk) s acts := by
  induction acts with
  | nil => exact fun _ _ => trivial
  | cons act acts ih =>
    intro s hs h
    obtain ⟨s1, h1, hon, hsettled⟩ := step_advances sgk hs h.1
    refine .cons (fun s' hs' => ?_) h1 (ih hon.inv (h.2 s1 h1))
    obtain rfl := ok_unique h1 hs'
    refine ⟨fun k hk => ?_, hsettled⟩
    obtain ⟨i, hi⟩ := hk
    have hqueue := hon.grows k (isSome_of_eq_some ((hs.ranked i k).mp hi))
    obtain ⟨j, hj⟩ := isSome_iff_exists.mp hqueue
    exact ⟨j, (hon.inv.ranked j k).mpr hj⟩

theorem run_careful (acts : List Act) :
    ∀ {s : RankArena}, s.Inv → Throughout (step sgk) RankArena.Ladder s acts → Along (step sgk) Careful s acts := by
  induction acts with
  | nil => exact fun _ _ => trivial
  | cons act acts ih =>
    intro s hs h
    cases hstep : step sgk s act with
    | error e =>
      have hact : Careful s act := by
        intro w hw
        obtain ⟨t, s1, h1, -⟩ := step_won sgk hw
        exact nomatch h1.symm.trans hstep
      exact ⟨hact, fun s' hs' => nomatch hstep.symm.trans hs'⟩
    | ok s1 =>
      have hact := careful_of_ladder sgk hs hstep (h.2 s1 hstep).head
      exact .cons hact hstep (ih (step_inv sgk s act s1 hs hact hstep) (h.2 s1 hstep))

/-- After a start that numbers its players, the players and the places belong to each other in every
state of a run, no place is given up and every won attack exchanges two orders or leaves them, just
if every attack won from behind is written whole or not at all. -/
theorem ladder_kept_iff (b : Boot) (pids : List ℕ) (acts : List Act)
    (hpids : ∀ i, (b.loadAll.all i).isSome → i ∈ pids) (hb : b.Numbered) :
    Throughout (step sgk) RankArena.Ladder (b.start pids) acts ∧ Along (step sgk) (Proper sgk) (b.start pids) acts ↔
      Along (step sgk) Careful (b.start pids) acts := by
  have hs := Boot.start_inv hb hpids
  constructor
  · exact fun h => run_careful sgk acts hs h.1
  · intro h
    exact ⟨run_throughout (fun _ => RankArena.Inv.isLadder) (step_inv sgk) acts _ hs h, run_proper sgk acts hs h⟩

/-! ## One attack from the second place -/

def firstStart : Boot where
  table := ⟨[], nodup_nil⟩
  selected := true
  db := fun _ => ⟨none, false⟩
  ais := [(105000, ⟨some [], true⟩)]
  aiNotJoin := []

theorem firstStart_pids : ∀ i, (firstStart.loadAll.all i).isSome → i ∈ [105000] := by
  intro i hi
  by_contra hne
  have hnone : firstStart.loadAll.all i = none := update_of_ne (ne_of_not_mem_cons hne) _ _
  rw [hnone] at hi
  exact nomatch hi

/-- Player 7 joins behind the AI player and attacks him; `first` and `second` are the two updates. -/
def attackFirst (first second : Bool) : List Act :=
  [.join 7 ⟨some [], true⟩ [], .reply 0 (.neighbors [1]), .attackSgk 7 1 105000, .reply 1 .ok, .reply 1 .ok,
    .reply 1 .ok, .reply 1 .ok, .reply 1 (.fight 1 ⟨some [1], first⟩ ⟨some [], second⟩ [2] [1])]

theorem ladder_kept_iff_attackFirst :
    Throughout (step true) RankArena.Ladder (firstStart.start [105000]) (attackFirst true true) ∧
      Along (step true) (Proper true) (firstStart.start [105000]) (attackFirst true true) := by
  refine (ladder_kept_iff true firstStart [105000] (attackFirst true true) firstStart_pids ?_).mpr ?_
  · decide +kernel
  · decide +kernel

/-- Where only the update of the attacker succeeds, the two players share the first place. -/
theorem first_place_shared :
    ¬ ∀ (sgk : Bool) (b : Boot) (pids : List ℕ) (acts : List Act), (∀ i, (b.loadAll.all i).isSome → i ∈ pids) →
      b.Numbered → Throughout (step sgk) RankArena.Ladder (b.start pids) acts := by
  intro h
  have hb : firstStart.Numbered := by decide +kernel
  refine not_throughout (fun s => s.order 7 == some 1 && s.order 105000 == some 1) ?_ ?_
    (h true firstStart [105000] (attackFirst true false) firstStart_pids hb)
  · decide +kernel
  · intro s hs hladder
    rw [Bool.and_eq_true, beq_iff_eq, beq_iff_eq] at hs
    exact absurd (hladder.distinct 7 105000 1 hs.1 hs.2) (by decide)

end CServer.Arena
