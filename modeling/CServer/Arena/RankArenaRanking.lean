import CServer.Lib.Ranking
import CServer.Arena.RankArena

/-! # The ladder as a ranking

The orders of the players and `ArenaQueue` are the two directions of a ranking: `Inv`. A join enters a
newcomer at the place after the last, `Entered`, and a won attack whose two updates have one outcome
exchanges two places, `Exchanged`, or moves nobody, `Kept`. -/
namespace CServer.Arena
open CServer.Lib Function Option

namespace RankArena

def stored (s : RankArena) (id : ℕ) : Option ℕ := (s.rows id).map Row.order

def Agrees (s : RankArena) : Prop := ∀ i k, s.order i = some k → s.stored i = some k

structure Inv (s : RankArena) : Prop where
  ranked : ∀ i k, s.order i = some k ↔ s.arenaQueue k = some i
  agrees : s.Agrees
  bounded : ∀ i k, s.order i = some k → k ≤ s.count

def ladder (s : RankArena) (hs : s.Inv) : ℕ ≃. ℕ where
  toFun := s.order
  invFun := s.arenaQueue
  inv i k := (hs.ranked i k).symm

/-! ## Steps that move nobody -/

structure Kept (s s' : RankArena) : Prop where
  order : s'.order = s.order
  stored : ∀ i, (s.order i).isSome → s'.stored i = s.stored i
  arenaQueue : s'.arenaQueue = s.arenaQueue
  count : s'.count = s.count

variable {s s' s'' : RankArena}

theorem Kept.refl (s : RankArena) : Kept s s := ⟨rfl, fun _ _ => rfl, rfl, rfl⟩

theorem Kept.trans (h : Kept s s') (h' : Kept s' s'') : Kept s s'' where
  order := h'.order.trans h.order
  stored i hi := (h'.stored i (by rw [h.order]; exact hi)).trans (h.stored i hi)
  arenaQueue := h'.arenaQueue.trans h.arenaQueue
  count := h'.count.trans h.count

theorem Kept.agrees (h : Kept s s') (hs : s.Agrees) : s'.Agrees := by
  intro i k hi
  rw [h.order] at hi
  rw [h.stored i (by rw [hi]; rfl)]
  exact hs i k hi

theorem Kept.inv (h : Kept s s') (hs : s.Inv) : s'.Inv where
  ranked i k := by
    rw [h.order, h.arenaQueue]
    exact hs.ranked i k
  agrees := h.agrees hs.agrees
  bounded i k := by
    rw [h.order, h.count]
    exact hs.bounded i k

theorem finish_kept (s : RankArena) (rid : ℕ) : Kept s (s.finish rid) := ⟨rfl, fun _ _ => rfl, rfl, rfl⟩

theorem wait_kept (s : RankArena) (r : Request) (w : Waiting) : Kept s (s.wait r w) := ⟨rfl, fun _ _ => rfl, rfl, rfl⟩

theorem start_kept (s : RankArena) (pid : ℕ) (w : Waiting) : Kept s (s.start pid w) := ⟨rfl, fun _ _ => rfl, rfl, rfl⟩

theorem order_some {id : ℕ} {p : Player} (h : s.all id = some p) : s.order id = some p.order := by
  rw [order, h]
  rfl

theorem order_setPlayer (s : RankArena) (id : ℕ) (p : Player) :
    (s.setPlayer id p).order = update s.order id (some p.order) := by
  funext i
  by_cases hi : i = id
  · subst hi
    simp [order, setPlayer]
  · simp [order, setPlayer, hi]

theorem setPlayer_kept {id : ℕ} {p : Player} (h : s.order id = some p.order) : Kept s (s.setPlayer id p) where
  order := by
    rw [order_setPlayer, ← h]
    exact update_eq_self id s.order
  stored _ _ := rfl
  arenaQueue := rfl
  count := rfl

theorem refreshEnemyList_kept (s : RankArena) (id : ℕ) (l : List ℕ) : Kept s (s.refreshEnemyList id l) := by
  cases l with
  | nil => exact .refl s
  | cons a l =>
    cases hp : s.all id with
    | none =>
      simp only [refreshEnemyList, getPlayer, hp]
      exact .refl s
    | some p =>
      simp only [refreshEnemyList, getPlayer, hp]
      apply setPlayer_kept
      rw [order_some hp]
      rfl

/-! ## Loading and writing a player -/

theorem stored_of_load {id : ℕ} {db : Db} {p : Player} (h : s.loadPlayerArenaInfo id db = some p) :
    s.stored id = some p.order := by
  unfold loadPlayerArenaInfo at h
  split at h
  · rename_i enemies row _ hrow
    obtain rfl := some.inj h
    rw [stored, hrow]
    simp only [map_some, Player.order]
    split <;> rfl
  · exact nomatch h

theorem reload_order (hs : s.Agrees) {id : ℕ} {p : Player} (hp : s.all id = some p) (db : Db) :
    (s.reload id p db).order = p.order := by
  cases h : s.loadPlayerArenaInfo id db with
  | none => rw [reload, h, getD_none]
  | some q =>
    rw [reload, h, getD_some]
    have hq := hs id p.order (order_some hp)
    rw [stored_of_load h] at hq
    exact some.inj hq

theorem readWinTime_order (hs : s.Agrees) {id : ℕ} {p : Player} (hp : s.all id = some p) (db : Db) :
    (s.readWinTime id p db).1.order = p.order := by
  unfold readWinTime
  cases s.todayWinCountUpdateTime with
  | none => exact reload_order hs hp db
  | some time => rfl

structure Moved (s s' : RankArena) (id o : ℕ) : Prop where
  order : s'.order = update s.order id (some o)
  stored : s'.stored = update s.stored id (some o)
  arenaQueue : s'.arenaQueue = s.arenaQueue
  count : s'.count = s.count

theorem Moved.agrees {id o : ℕ} (h : Moved s s' id o) (hs : s.Agrees) : s'.Agrees := by
  intro i k hi
  rw [h.order] at hi
  rw [h.stored]
  by_cases hid : i = id
  · subst hid
    rw [update_self] at hi ⊢
    exact hi
  · rw [update_of_ne hid] at hi ⊢
    exact hs i k hi

theorem Moved.kept {id o : ℕ} (h : Moved s s' id o) (hs : s.Agrees) (ho : s.order id = some o) : Kept s s' where
  order := by
    rw [h.order, ← ho]
    exact update_eq_self id s.order
  stored i _ := by
    rw [h.stored, ← hs id o ho]
    exact congrFun (update_eq_self id s.stored) i
  arenaQueue := h.arenaQueue
  count := h.count

section SetArenaInfo
variable {id : ℕ} {p : Player} (a : ArenaInfo) {db : Db}

theorem setArenaInfo_moved (hp : s.all id = some p) (hchange : a.noChange p s.now = false) (hdb : db.updated = true) :
    Moved s (s.setArenaInfo id a db) id (a.order.getD p.order) := by
  obtain ⟨dailyTime, winTime, hs'⟩ : ∃ dailyTime winTime, s.setArenaInfo id a db =
      { s with
        dailyRewardFlagUpdateTime := some dailyTime
        todayWinCountUpdateTime := some winTime
        rows := update s.rows id (some (a.row p (s.readWinTime id p db).1 s.now dailyTime winTime))
        all := update s.all id (some { (s.readWinTime id p db).1 with
          row := a.row p (s.readWinTime id p db).1 s.now dailyTime winTime }) } := by
    simp only [setArenaInfo, getPlayer, hp, hchange, hdb, Bool.false_eq_true, if_false, if_true]
    exact ⟨_, _, rfl⟩
  rw [hs']
  refine ⟨?_, ?_, rfl, rfl⟩
  · funext i
    by_cases hi : i = id
    · subst hi
      simp [order, Player.order, ArenaInfo.row]
    · simp [order, hi]
  · funext i
    by_cases hi : i = id
    · subst hi
      simp [stored, Player.order, ArenaInfo.row]
    · simp [stored, hi]

theorem setArenaInfo_failed (hs : s.Agrees) (hp : s.all id = some p)
    (h : a.noChange p s.now = true ∨ db.updated = false) : Kept s (s.setArenaInfo id a db) := by
  obtain ⟨dailyTime, winTime, hs'⟩ : ∃ dailyTime winTime, s.setArenaInfo id a db =
      { s.setPlayer id (s.readWinTime id p db).1 with
        dailyRewardFlagUpdateTime := some dailyTime, todayWinCountUpdateTime := some winTime } := by
    rcases h with h | h
    · simp only [setArenaInfo, getPlayer, hp, h, if_true]
      exact ⟨_, _, rfl⟩
    · simp only [setArenaInfo, getPlayer, hp, h, Bool.false_eq_true, if_false, ite_self]
      exact ⟨_, _, rfl⟩
  rw [hs']
  have hkept : Kept s (s.setPlayer id (s.readWinTime id p db).1) := by
    apply setPlayer_kept
    rw [readWinTime_order hs hp]
    exact order_some hp
  exact ⟨hkept.order, hkept.stored, hkept.arenaQueue, hkept.count⟩

theorem setArenaInfo_kept (hs : s.Agrees) (hp : s.all id = some p) (ho : a.order.getD p.order = p.order) :
    Kept s (s.setArenaInfo id a db) := by
  cases hchange : a.noChange p s.now with
  | true => exact setArenaInfo_failed a hs hp (.inl hchange)
  | false =>
    cases hdb : db.updated with
    | false => exact setArenaInfo_failed a hs hp (.inr hdb)
    | true =>
      refine (setArenaInfo_moved a hp hchange hdb).kept hs ?_
      rw [ho]
      exact order_some hp

end SetArenaInfo

/-! ## Going on -/

structure Onward (s s' : RankArena) : Prop where
  inv : s'.Inv
  grows : ∀ k, (s.arenaQueue k).isSome → (s'.arenaQueue k).isSome

theorem Onward.trans (h : Onward s s') (h' : Onward s' s'') : Onward s s'' :=
  ⟨h'.inv, fun k hk => h'.grows k (h.grows k hk)⟩

theorem Kept.onward (h : Kept s s') (hs : s.Inv) : Onward s s' where
  inv := h.inv hs
  grows k hk := by
    rw [h.arenaQueue]
    exact hk

/-! ## The end of an attack -/

theorem setQueue_eq {i k : ℕ} (h : s.order i = some k) :
    s.setQueue i = { s with arenaQueue := update s.arenaQueue k (some i) } := by
  obtain ⟨p, hp, rfl⟩ := map_eq_some_iff.mp h
  rw [setQueue, getPlayer, hp]

theorem setQueue_kept (hs : s.Inv) {i k : ℕ} (h : s.order i = some k) : Kept s (s.setQueue i) := by
  rw [setQueue_eq h]
  refine ⟨rfl, fun _ _ => rfl, ?_, rfl⟩
  change update s.arenaQueue k (some i) = s.arenaQueue
  rw [← (hs.ranked i k).mp h]
  exact update_eq_self k s.arenaQueue

structure Exchanged (s s' : RankArena) (i j oi oj : ℕ) : Prop where
  order : s'.order = update (update s.order i (some oj)) j (some oi)
  arenaQueue : s'.arenaQueue = update (update s.arenaQueue oi (some j)) oj (some i)
  agrees : s'.Agrees
  count : s'.count = s.count

theorem Exchanged.ladder {i j oi oj : ℕ} (h : Exchanged s s' i j oi oj) (hs : s.Inv) (hi : s.order i = some oi)
    (hj : s.order j = some oj) :
    s'.order = exchange (s.ladder hs) oi oj ∧ s'.arenaQueue = (exchange (s.ladder hs) oi oj).symm := by
  have hi' : s.ladder hs i = some oi := hi
  have hj' : s.ladder hs j = some oj := hj
  rw [h.order, h.arenaQueue, exchange_apply hi' hj', exchange_symm hi' hj']
  exact ⟨rfl, rfl⟩

theorem Exchanged.inv {i j oi oj : ℕ} (h : Exchanged s s' i j oi oj) (hs : s.Inv) (hi : s.order i = some oi)
    (hj : s.order j = some oj) : s'.Inv where
  ranked x y := by
    obtain ⟨ho, hq⟩ := h.ladder hs hi hj
    rw [ho, hq]
    exact (exchange (s.ladder hs) oi oj).eq_some_iff.symm
  agrees := h.agrees
  bounded x y hx := by
    rw [h.count]
    rw [h.order] at hx
    by_cases hxj : x = j
    · rw [hxj, update_self] at hx
      exact some.inj hx ▸ hs.bounded i oi hi
    · rw [update_of_ne hxj] at hx
      by_cases hxi : x = i
      · rw [hxi, update_self] at hx
        exact some.inj hx ▸ hs.bounded j oj hj
      · rw [update_of_ne hxi] at hx
        exact hs.bounded x y hx

theorem Exchanged.onward {i j oi oj : ℕ} (h : Exchanged s s' i j oi oj) (hs : s.Inv) (hi : s.order i = some oi)
    (hj : s.order j = some oj) : Onward s s' where
  inv := h.inv hs hi hj
  grows k hk := by
    rw [(h.ladder hs hi hj).2]
    exact exchange_taken (L := s.ladder hs) hi hj hk

def wonInfo (p : Player) (now o : ℕ) : ArenaInfo where
  count := some (p.fightCount now + 1)
  time := some now
  cwin := some (p.row.cwin + 1)
  order := some o
  addCount := some (p.addFightCount now)
  todayWinCount := some (p.todayWinCount now + 1)

theorem wonInfo_changes (p : Player) (now o : ℕ) : (wonInfo p now o).noChange p now = false := by
  simp [ArenaInfo.noChange, wonInfo]

def lostInfo (o : ℕ) : ArenaInfo where
  cwin := some 0
  order := some o

theorem lostInfo_changes {q : Player} {o : ℕ} (h : q.order ≠ o) (now : ℕ) : (lostInfo o).noChange q now = false := by
  have h' : q.row.order ≠ o := h
  simp [ArenaInfo.noChange, lostInfo, h']

section FightWon
variable {i j : ℕ} {p q : Player} (first second : Db)

theorem fightWon_eq (hp : s.all i = some p) (hq : s.all j = some q) :
    fightWon s i j first second =
      ((((s.setArenaInfo i (wonInfo p s.now (min p.order q.order)) first).setArenaInfo j
        (lostInfo (max p.order q.order)) second).setQueue j).setQueue i) := by
  have h1 : (if q.order < p.order then q.order else p.order) = min p.order q.order := by
    split <;> omega
  have h2 : (if q.order < p.order then p.order else q.order) = max p.order q.order := by
    split <;> omega
  simp only [fightWon, getPlayer, hp, hq, h1, h2]
  rfl

theorem fightWon_kept (hs : s.Inv) (hp : s.all i = some p) (hq : s.all j = some q)
    (h : p.order ≤ q.order ∨ first.updated = false ∧ second.updated = false) :
    Kept s (fightWon s i j first second) := by
  rw [fightWon_eq first second hp hq]
  have h1 : Kept s (s.setArenaInfo i (wonInfo p s.now (min p.order q.order)) first) := by
    rcases h with h | ⟨h, _⟩
    · exact setArenaInfo_kept _ hs.agrees hp (Nat.min_eq_left h)
    · exact setArenaInfo_failed _ hs.agrees hp (.inr h)
  have hs1 := h1.inv hs
  obtain ⟨q', hq', hqo⟩ : ∃ q', (s.setArenaInfo i (wonInfo p s.now (min p.order q.order)) first).all j = some q' ∧
      q'.order = q.order := by
    refine map_eq_some_iff.mp ?_
    exact (congrFun h1.order j).trans (order_some hq)
  have h2 := h1.trans <| show Kept _ (setArenaInfo _ j (lostInfo (max p.order q.order)) second) by
    rcases h with h | ⟨_, h⟩
    · exact setArenaInfo_kept _ hs1.agrees hq' ((Nat.max_eq_right h).trans hqo.symm)
    · exact setArenaInfo_failed _ hs1.agrees hq' (.inr h)
  have h3 := h2.trans (setQueue_kept (h2.inv hs) ((congrFun h2.order j).trans (order_some hq)))
  exact h3.trans (setQueue_kept (h3.inv hs) ((congrFun h3.order i).trans (order_some hp)))

theorem ne_of_order_lt (hp : s.all i = some p) (hq : s.all j = some q) (h : q.order < p.order) : j ≠ i := by
  rintro rfl
  rw [hp] at hq
  rw [some.inj hq] at h
  exact lt_irrefl _ h

theorem fightWon_exchanged (hs : s.Inv) (hp : s.all i = some p) (hq : s.all j = some q) (h : q.order < p.order)
    (hfirst : first.updated = true) (hsecond : second.updated = true) :
    Exchanged s (fightWon s i j first second) i j p.order q.order := by
  have hij := ne_of_order_lt hp hq h
  rw [fightWon_eq first second hp hq, Nat.min_eq_right h.le, Nat.max_eq_left h.le]
  have h1 : Moved s (s.setArenaInfo i (wonInfo p s.now q.order) first) i q.order :=
    setArenaInfo_moved _ hp (wonInfo_changes p s.now q.order) hfirst
  set s1 := s.setArenaInfo i (wonInfo p s.now q.order) first
  obtain ⟨q', hq', hqo⟩ : ∃ q', s1.all j = some q' ∧ q'.order = q.order := by
    refine map_eq_some_iff.mp ?_
    change s1.order j = some q.order
    rw [h1.order, update_of_ne hij]
    exact order_some hq
  have h2 : Moved s1 (s1.setArenaInfo j (lostInfo p.order) second) j p.order :=
    setArenaInfo_moved _ hq' (lostInfo_changes (hqo.trans_ne h.ne) s1.now) hsecond
  set s2 := s1.setArenaInfo j (lostInfo p.order) second
  have horder : s2.order = update (update s.order i (some q.order)) j (some p.order) := by
    rw [h2.order, h1.order]
  have hj : s2.order j = some p.order := by
    rw [horder, update_self]
  have hi : s2.order i = some q.order := by
    rw [horder, update_of_ne hij.symm, update_self]
  have hqueue : (s2.setQueue j).setQueue i =
      { s2 with arenaQueue := update (update s2.arenaQueue p.order (some j)) q.order (some i) } := by
    rw [setQueue_eq hj]
    exact setQueue_eq hi
  rw [hqueue]
  refine ⟨horder, ?_, h2.agrees (h1.agrees hs.agrees), h2.count.trans h1.count⟩
  change update (update s2.arenaQueue _ _) _ _ = _
  rw [h2.arenaQueue, h1.arenaQueue]

theorem setQueue_order (s : RankArena) (i : ℕ) : (s.setQueue i).order = s.order := by
  unfold setQueue
  split <;> rfl

theorem fightWon_shared (hs : s.Inv) (hp : s.all i = some p) (hq : s.all j = some q) (h : q.order < p.order)
    (hdiff : first.updated ≠ second.updated) :
    ∃ o, (fightWon s i j first second).order i = some o ∧ (fightWon s i j first second).order j = some o := by
  have hij := ne_of_order_lt hp hq h
  rw [fightWon_eq first second hp hq, Nat.min_eq_right h.le, Nat.max_eq_left h.le, setQueue_order, setQueue_order]
  set s1 := s.setArenaInfo i (wonInfo p s.now q.order) first with hs1
  cases hfirst : first.updated with
  | true =>
    have hsecond : second.updated = false := Bool.eq_false_iff.mpr fun h => hdiff (hfirst.trans h.symm)
    have h1 : Moved s s1 i q.order :=
      setArenaInfo_moved _ hp (wonInfo_changes p s.now q.order) hfirst
    have hj : s1.order j = some q.order := by
      rw [h1.order, update_of_ne hij]
      exact order_some hq
    obtain ⟨q', hq', -⟩ := map_eq_some_iff.mp hj
    have h2 := setArenaInfo_failed (lostInfo p.order) (h1.agrees hs.agrees) hq' (.inr hsecond)
    refine ⟨q.order, ?_, ?_⟩
    · rw [h2.order, h1.order, update_self]
    · rw [h2.order]
      exact hj
  | false =>
    have hsecond : second.updated = true := Bool.not_eq_false _ ▸ fun h => hdiff (hfirst.trans h.symm)
    have h1 : Kept s s1 := setArenaInfo_failed (wonInfo p s.now q.order) hs.agrees hp (.inr hfirst)
    obtain ⟨q', hq', hqo⟩ : ∃ q', s1.all j = some q' ∧ q'.order = q.order :=
      map_eq_some_iff.mp ((congrFun h1.order j).trans (order_some hq))
    have h2 := setArenaInfo_moved _ hq' (lostInfo_changes (hqo.trans_ne h.ne) s1.now) hsecond
    refine ⟨p.order, ?_, ?_⟩
    · rw [h2.order, update_of_ne hij.symm, h1.order]
      exact order_some hp
    · rw [h2.order, update_self]
      rfl

end FightWon

/-! ## Joining -/

/-- A newcomer at the place after the last, in memory and in the database but not in `ArenaQueue`. -/
structure Created (s s' : RankArena) (id : ℕ) : Prop where
  absent : s.order id = none
  order : s'.order = update s.order id (some (s.count + 1))
  agrees : s'.Agrees
  arenaQueue : s'.arenaQueue = s.arenaQueue
  count : s'.count = s.count + 1

theorem newPlayer_none {id : ℕ} {db : Db} (h : (s.aiJoinRankArena id).loadPlayerArenaInfo id db = none) :
    s.newPlayer id db = (s.aiJoinRankArena id, none) := by
  rw [newPlayer, h]

theorem newPlayer_some {id : ℕ} {db : Db} {p : Player}
    (h : (s.aiJoinRankArena id).loadPlayerArenaInfo id db = some p) :
    s.newPlayer id db =
      ({ s.aiJoinRankArena id with all := update s.all id (some p), count := s.count + 1 }, some p) := by
  rw [newPlayer, h]
  rfl

theorem order_update {t : RankArena} {id : ℕ} {p : Player} (h : t.all = update s.all id (some p)) :
    t.order = update s.order id (some p.order) := by
  funext i
  rw [order, h]
  by_cases hi : i = id
  · subst hi
    rw [update_self, update_self]
    rfl
  · rw [update_of_ne hi, update_of_ne hi]
    rfl

theorem stored_update {t : RankArena} {id : ℕ} {row : Row} (h : t.rows = update s.rows id (some row)) :
    t.stored = update s.stored id (some row.order) := by
  funext i
  rw [stored, h]
  by_cases hi : i = id
  · subst hi
    rw [update_self, update_self]
    rfl
  · rw [update_of_ne hi, update_of_ne hi]
    rfl

theorem order_none {id : ℕ} : s.order id = none ↔ s.all id = none := by
  rw [order, map_eq_none_iff]

theorem create_cases (hs : s.Agrees) (id : ℕ) (db : Db) :
    (∃ s', s.create id db = (s', none) ∧ Kept s s') ∨
      ∃ s' p, s.create id db = (s', some p) ∧ p.order = s.count + 1 ∧ Created s s' id := by
  by_cases hall : (s.all id).isSome
  · left
    refine ⟨s, ?_, .refl s⟩
    rw [create, if_pos hall]
  have habsent : s.order id = none := order_none.mpr (not_isSome_iff_eq_none.mp hall)
  by_cases hdb : (db.updated && (s.rows id).isNone) = true
  · let s1 : RankArena := { s with rows := update s.rows id (some { order := s.count + 1 }) }
    have hcreate : s.create id db = s1.newPlayer id db := by
      rw [create, if_neg hall, if_pos hdb]
    have hstored : s1.stored = update s.stored id (some (s.count + 1)) :=
      @stored_update s s1 id { order := s.count + 1 } rfl
    rw [hcreate]
    cases hload : (s1.aiJoinRankArena id).loadPlayerArenaInfo id db with
    | none =>
      left
      refine ⟨s1.aiJoinRankArena id, newPlayer_none hload, rfl, fun i hi => ?_, rfl, rfl⟩
      have hid : i ≠ id := by
        rintro rfl
        rw [habsent] at hi
        exact nomatch hi
      change s1.stored i = s.stored i
      rw [hstored, update_of_ne hid]
    | some p =>
      right
      have hp : p.order = s.count + 1 := by
        have h : s1.stored id = some p.order := stored_of_load hload
        rw [hstored, update_self] at h
        exact (some.inj h).symm
      refine ⟨_, p, newPlayer_some hload, hp, habsent, ?_, ?_, rfl, rfl⟩
      · rw [← hp]
        exact order_update rfl
      · intro i k hi
        rw [order_update (s := s) rfl] at hi
        change s1.stored i = some k
        rw [hstored]
        by_cases hid : i = id
        · subst hid
          rw [update_self] at hi ⊢
          rw [← hp]
          exact hi
        · rw [update_of_ne hid] at hi ⊢
          exact hs i k hi
  · left
    refine ⟨s, ?_, .refl s⟩
    rw [create, if_neg hall, if_neg hdb]

/-- A newcomer at the place after the last, in `ArenaQueue` too. -/
structure Entered (s s' : RankArena) (id : ℕ) : Prop where
  absent : s.order id = none
  order : s'.order = update s.order id (some (s.count + 1))
  arenaQueue : s'.arenaQueue = update s.arenaQueue (s.count + 1) (some id)
  agrees : s'.Agrees
  count : s'.count = s.count + 1

theorem Inv.free (hs : s.Inv) : s.arenaQueue (s.count + 1) = none := by
  cases h : s.arenaQueue (s.count + 1) with
  | none => rfl
  | some i =>
    have := hs.bounded i _ ((hs.ranked i _).mpr h)
    omega

theorem Entered.onward {id : ℕ} (h : Entered s s' id) (hs : s.Inv) : Onward s s' := by
  have ho : s'.order = enter (s.ladder hs) id (s.count + 1) h.absent hs.free := h.order
  have hq : s'.arenaQueue = (enter (s.ladder hs) id (s.count + 1) h.absent hs.free).symm := h.arenaQueue
  refine ⟨⟨fun i k => ?_, h.agrees, fun i k hi => ?_⟩, fun k hk => ?_⟩
  · rw [ho, hq]
    exact (enter (s.ladder hs) id (s.count + 1) h.absent hs.free).eq_some_iff.symm
  · rw [h.count]
    rw [h.order] at hi
    by_cases hid : i = id
    · rw [hid, update_self] at hi
      exact (some.inj hi).ge
    · rw [update_of_ne hid] at hi
      exact (hs.bounded i k hi).trans (Nat.le_succ _)
  · rw [h.arenaQueue]
    by_cases hkc : k = s.count + 1
    · rw [hkc, update_self]
      rfl
    · rw [update_of_ne hkc]
      exact hk

theorem addOne_onward (hs : s.Inv) (id : ℕ) (db : Db) : ∃ s', s.addOne id db = (s', true) ∧ Onward s s' := by
  rcases create_cases hs.agrees id db with ⟨s1, hcreate, hkept⟩ | ⟨s1, p, hcreate, hp, hnew⟩
  · refine ⟨s1, ?_, hkept.onward hs⟩
    rw [addOne, hcreate]
  · have hfree : s1.arenaQueue p.order = none := by
      rw [hnew.arenaQueue, hp]
      exact hs.free
    let s2 := { s1 with arenaQueue := update s1.arenaQueue p.order (some id) }.updateMaxOrder p.order
    have hentered : Entered s s2 id := by
      refine ⟨hnew.absent, hnew.order, ?_, hnew.agrees, hnew.count⟩
      change update s1.arenaQueue p.order (some id) = _
      rw [hnew.arenaQueue, hp]
    refine ⟨s2, ?_, hentered.onward hs⟩
    rw [addOne, hcreate]
    simp only [enlist, if_pos hfree]
    rfl

theorem addAIs_onward (ais : List (ℕ × Db)) :
    ∀ {s : RankArena}, s.Inv → ∃ s', s.addAIs ais = (s', true) ∧ Onward s s' := by
  induction ais with
  | nil => exact fun hs => ⟨_, rfl, (Kept.refl _).onward hs⟩
  | cons ai ais ih =>
    intro s hs
    obtain ⟨s1, h1, hon⟩ := addOne_onward hs ai.1 ai.2
    obtain ⟨s2, h2, hon'⟩ := ih hon.inv
    refine ⟨s2, ?_, hon.trans hon'⟩
    rw [addAIs, h1]
    exact h2

theorem addPlayer_onward (hs : s.Inv) (id : ℕ) (db : Db) (ais : List (ℕ × Db)) :
    ∃ s', s.addPlayer id db ais = (s', true) ∧ Onward s s' := by
  cases hp : s.all id with
  | some p =>
    refine ⟨s, ?_, (Kept.refl s).onward hs⟩
    rw [addPlayer, getPlayer, hp]
  | none =>
    obtain ⟨s1, h1, hon⟩ := addOne_onward hs id db
    rw [addPlayer, getPlayer, hp]
    simp only [h1]
    split
    · exact ⟨s1, rfl, hon⟩
    · obtain ⟨s2, h2, hon'⟩ := addAIs_onward (ais.filter fun ai => ai.1 ∈ s1.aiNotJoin) hon.inv
      exact ⟨s2, h2, hon.trans hon'⟩

end RankArena

end CServer.Arena
