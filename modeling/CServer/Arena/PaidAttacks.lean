import CServer.Arena.RankArena

/-! # `arena/RankArenaLogic.lua`: attacks that were paid for and their results

An attack is paid for and answered in one request, and the client sends its result in another one, which is accepted if
`fight_list` has its target. The entry stays there.
-/
namespace CServer.Arena
open CServer.Lib Function
open List hiding lookup

/-! ## Counting -/

/-- The target and the winner of a result that is accepted. -/
def RankArena.checked (s : RankArena) (pid : ℕ) (targetId winner : Option ℕ) : Option (ℕ × ℕ) :=
  match targetId, winner with
  | some targetId, some winner =>
    if s.fightList pid = some targetId ∧ (s.getPlayer pid).isSome ∧ (s.getPlayer targetId).isSome then
      some (targetId, winner)
    else none
  | _, _ => none

structure Lost where
  rid : ℕ
  fight : ℕ × ℕ
  deriving DecidableEq

/-- The ladder, with what is not in the source: the requests paid for, the accepted losses that wait, the players whose entry a
result was accepted against, and by attacker and target the attacks answered with success and the results counted. -/
structure ArenaFights where
  arena : RankArena
  paid : ℕ → Bool := fun _ => false
  lost : List Lost := []
  used : ℕ → Bool := fun _ => false
  answered : ℕ × ℕ → ℕ := fun _ => 0
  accepted : ℕ × ℕ → ℕ := fun _ => 0

namespace ArenaFights
variable (s : ArenaFights)

def accept (fight : ℕ × ℕ) : ArenaFights := { s with accepted := update s.accepted fight (s.accepted fight + 1) }

def answer (r : Request) (target : ℕ) : ArenaFights :=
  if s.paid r.rid then
    { s with
      used := update s.used r.pid false
      answered := update s.answered (r.pid, target) (s.answered (r.pid, target) + 1) }
  else s

def check (pid : ℕ) : Option (ℕ × ℕ) → ArenaFights
  | none => s
  | some (target, winner) =>
    let s := { s with used := update s.used pid true }
    if winner = 1 then s.accept (pid, target) else { s with lost := ⟨s.arena.nextRid, (pid, target)⟩ :: s.lost }

def counted (r : Request) : ArenaFights :=
  match lookup Lost.rid r.rid s.lost with
  | none => s
  | some l => { s with lost := discard Lost.rid r.rid s.lost }.accept l.fight

def noteReply (r : Request) : Answer → ArenaFights
  | .ok =>
    match r.at' with
    | .attack _ .cost => { s with paid := update s.paid r.rid true }
    | .attack target .defenderData => s.answer r target
    | _ => s
  | .vip _ =>
    match r.at' with
    | .vip _ _ => s.counted r
    | _ => s
  | _ => s

def note : Act → ArenaFights
  | .fightCheck pid targetId winner _ _ _ => s.check pid (s.arena.checked pid targetId winner)
  | .reply rid answer =>
    match lookup Request.rid rid s.arena.inFlight with
    | none => s
    | some r => s.noteReply r answer
  | _ => s

/-- The start of the process, the tables being what they are. -/
def init (s : RankArena) : ArenaFights := { arena := { s with fightList := fun _ => none, inFlight := [] } }

end ArenaFights

def fightStep (sgk : Bool) (s : ArenaFights) (act : Act) : Except Fault ArenaFights := do
  let arena ← step sgk s.arena act
  .ok { s.note act with arena }

def ArenaFights.Cover (s : ArenaFights) : Prop := ∀ pid target, s.accepted (pid, target) ≤ s.answered (pid, target)

/-- No result is accepted against an entry for the second time. -/
def Act.Unused (s : ArenaFights) : Act → Prop
  | .fightCheck pid targetId winner _ _ _ => (s.arena.checked pid targetId winner).isSome = true → s.used pid = false
  | _ => True

/-! ## What leaves entries and requests as they are -/

namespace RankArena

/-- Neither an entry of `fight_list` nor a request changes. -/
structure Idle (s s' : RankArena) : Prop where
  fightList : s'.fightList = s.fightList
  inFlight : s'.inFlight = s.inFlight

variable {s s' s'' : RankArena}

theorem Idle.refl (s : RankArena) : Idle s s := ⟨rfl, rfl⟩

theorem Idle.trans (h : Idle s s') (h' : Idle s' s'') : Idle s s'' :=
  ⟨h'.fightList.trans h.fightList, h'.inFlight.trans h.inFlight⟩

theorem refreshEnemyList_idle (s : RankArena) (id : ℕ) (l : List ℕ) : Idle s (s.refreshEnemyList id l) := by
  unfold refreshEnemyList
  split
  · exact .refl s
  · exact .refl s
  · exact ⟨rfl, rfl⟩

theorem setArenaInfo_idle (s : RankArena) (id : ℕ) (a : ArenaInfo) (db : Db) : Idle s (s.setArenaInfo id a db) := by
  unfold setArenaInfo
  split
  · exact .refl s
  · dsimp only
    split_ifs <;> exact ⟨rfl, rfl⟩

theorem setQueue_idle (s : RankArena) (id : ℕ) : Idle s (s.setQueue id) := by
  unfold setQueue
  split
  · exact .refl s
  · exact ⟨rfl, rfl⟩

theorem newPlayer_idle (s : RankArena) (id : ℕ) (db : Db) : Idle s (s.newPlayer id db).1 := by
  unfold newPlayer
  dsimp only
  split <;> exact ⟨rfl, rfl⟩

theorem create_idle (s : RankArena) (id : ℕ) (db : Db) : Idle s (s.create id db).1 := by
  unfold create
  split_ifs
  · exact .refl s
  · have hinsert : Idle s { s with rows := update s.rows id (some { order := s.count + 1 }) } := ⟨rfl, rfl⟩
    exact hinsert.trans (newPlayer_idle _ id db)
  · exact .refl s

theorem addOne_idle (s : RankArena) (id : ℕ) (db : Db) : Idle s (s.addOne id db).1 := by
  have hcreate := create_idle s id db
  unfold addOne
  generalize s.create id db = created at hcreate ⊢
  obtain ⟨s₁, _ | p⟩ := created
  · exact hcreate
  · cases henlist : s₁.enlist id p with
    | none => simpa only [henlist] using hcreate
    | some s₂ =>
      simp only [henlist]
      unfold enlist at henlist
      split_ifs at henlist
      obtain rfl := Option.some.inj henlist
      have hqueue : Idle s₁ { s₁ with arenaQueue := update s₁.arenaQueue p.order (some id) } := ⟨rfl, rfl⟩
      exact hcreate.trans (hqueue.trans ⟨rfl, rfl⟩)

theorem addAIs_idle (ais : List (ℕ × Db)) : ∀ s : RankArena, Idle s (s.addAIs ais).1 := by
  induction ais with
  | nil => exact Idle.refl
  | cons ai ais ih =>
    intro s
    have hone := addOne_idle s ai.1 ai.2
    rw [addAIs]
    generalize s.addOne ai.1 ai.2 = added at hone ⊢
    obtain ⟨s₁, _ | _⟩ := added
    · exact hone
    · exact hone.trans (ih s₁)

theorem addPlayer_idle (s : RankArena) (id : ℕ) (db : Db) (ais : List (ℕ × Db)) : Idle s (s.addPlayer id db ais).1 := by
  have hone := addOne_idle s id db
  unfold addPlayer
  cases s.getPlayer id with
  | some p => exact .refl s
  | none =>
    generalize s.addOne id db = added at hone ⊢
    obtain ⟨s₁, _ | _⟩ := added
    · exact hone
    · dsimp only
      split_ifs
      · exact hone
      · exact hone.trans (addAIs_idle _ s₁)

theorem fightWon_idle (s : RankArena) (attackerId targetId : ℕ) (first second : Db) :
    Idle s (fightWon s attackerId targetId first second) := by
  unfold fightWon
  split
  · exact (((setArenaInfo_idle ..).trans (setArenaInfo_idle ..)).trans (setQueue_idle ..)).trans (setQueue_idle ..)
  · exact .refl s

theorem refreshBoth_idle (s : RankArena) (attackerId targetId : ℕ) (vpos vposTarget : List ℕ) :
    Idle s (refreshBoth s attackerId targetId vpos vposTarget) :=
  (refreshEnemyList_idle ..).trans (refreshEnemyList_idle ..)

end RankArena

def Waiting.charged : Waiting → Bool
  | .attack _ .attackerData => true
  | .attack _ .defenderData => true
  | _ => false

/-- No entry of `fight_list` changes and no request gets to where it was paid for. -/
structure RankArena.Quiet (s s' : RankArena) : Prop where
  fightList : s'.fightList = s.fightList
  charged : ∀ r ∈ s'.inFlight, r.at'.charged = true → r ∈ s.inFlight

namespace RankArena
variable {s s' s'' : RankArena}

theorem Idle.quiet (h : Idle s s') : Quiet s s' := ⟨h.fightList, fun _ hr _ => h.inFlight ▸ hr⟩

theorem Quiet.refl (s : RankArena) : Quiet s s := (Idle.refl s).quiet

theorem Quiet.trans (h : Quiet s s') (h' : Quiet s' s'') : Quiet s s'' :=
  ⟨h'.fightList.trans h.fightList, fun r hr hc => h.charged r (h'.charged r hr hc) hc⟩

theorem finish_quiet (s : RankArena) (rid : ℕ) : Quiet s (s.finish rid) :=
  ⟨rfl, fun _ hr _ => (mem_discard.mp hr).1⟩

theorem start_quiet (s : RankArena) (pid : ℕ) {w : Waiting} (hw : w.charged = false) : Quiet s (s.start pid w) := by
  refine ⟨rfl, fun r hr hc => ?_⟩
  rcases mem_append.mp hr with hr | hr
  · exact hr
  · rw [mem_singleton.mp hr, hw] at hc
    exact nomatch hc

theorem wait_quiet (s : RankArena) (r : Request) {w : Waiting} (hw : w.charged = false) : Quiet s (s.wait r w) := by
  refine ⟨rfl, fun r' hr hc => ?_⟩
  obtain ⟨r₀, hr₀, rfl⟩ := mem_map.mp hr
  dsimp only at hc ⊢
  split_ifs at hc ⊢ with hkey
  · rw [hw] at hc
    exact nomatch hc
  · exact hr₀

end RankArena

open RankArena

section Requests
variable {s : RankArena}

variable (s : RankArena)

theorem onArenaJoin_quiet (pid : ℕ) (db : Db) (ais : List (ℕ × Db)) : Quiet s (onArenaJoin s pid db ais) := by
  have hadd := (addPlayer_idle s pid db ais).quiet
  unfold onArenaJoin
  generalize s.addPlayer pid db ais = added at hadd ⊢
  obtain ⟨s₁, _ | _⟩ := added
  · exact hadd
  · dsimp only at hadd ⊢
    cases s₁.getPlayer pid with
    | none => exact hadd
    | some p => exact hadd.trans (start_quiet s₁ pid rfl)

theorem joinReply_quiet (sgk : Bool) (s : RankArena) (r : Request) (vpos : List ℕ) : Quiet s (joinReply sgk s r vpos) := by
  unfold joinReply
  dsimp only
  have hfinish := finish_quiet s r.rid
  split
  · exact hfinish
  · split_ifs
    · exact hfinish
    · exact hfinish.trans (refreshEnemyList_idle ..).quiet
    · exact hfinish.trans (refreshEnemyList_idle ..).quiet

theorem onArenaAttackSgk_quiet (pid targetPos targetId : ℕ) :
    Quiet s (onArenaAttackSgk s pid targetPos targetId) := by
  unfold onArenaAttackSgk
  split
  · split_ifs
    · exact .refl s
    · exact start_quiet s pid rfl
    · exact .refl s
  · exact .refl s

theorem onArenaAttack_quiet (pid targetId : ℕ) : Quiet s (onArenaAttack s pid targetId) := by
  unfold onArenaAttack
  split
  · split_ifs
    · exact start_quiet s pid rfl
    · exact .refl s
  · exact .refl s

theorem vipReply_quiet (r : Request) (count time : ℕ) (db : Db) : Quiet s (vipReply s r count time db) := by
  unfold vipReply
  dsimp only
  split
  · exact finish_quiet s r.rid
  · exact (finish_quiet s r.rid).trans (setArenaInfo_idle ..).quiet

theorem onArenaFightCheck_quiet (pid : ℕ) (targetId winner : Option ℕ) (first second : Db) (vpos : List ℕ) :
    Quiet s (onArenaFightCheck s pid targetId winner first second vpos) := by
  unfold onArenaFightCheck
  split
  · split_ifs
    · exact .refl s
    · split
      · exact ((fightWon_idle ..).trans (refreshEnemyList_idle ..)).quiet
      · exact .refl s
    · split
      · exact start_quiet s pid rfl
      · exact .refl s
  · exact .refl s

theorem reply_quiet (sgk : Bool) (s : RankArena) {r : Request} {answer : Answer}
    (h : answer = .ok → ∀ target call, r.at' = .attack target call → call = .level ∨ call = .fight) :
    Quiet s (reply sgk s r answer) := by
  cases answer with
  | failed => exact finish_quiet s r.rid
  | ok =>
    unfold reply
    cases hat : r.at' with
    | attackSgk target call =>
      dsimp only
      split
      · exact .refl s
      · exact wait_quiet s r rfl
    | attack target call =>
      rcases h rfl target call hat with rfl | rfl
      · exact wait_quiet s r rfl
      · exact .refl s
    | neighbors => exact .refl s
    | vip count time => exact .refl s
  | neighbors vpos =>
    unfold reply
    dsimp only
    split_ifs
    · exact joinReply_quiet sgk s r vpos
    · exact .refl s
  | fight winner first second vpos vposTarget =>
    unfold reply
    dsimp only
    split
    · have hfinish := finish_quiet s r.rid
      split_ifs
      · exact hfinish.trans ((fightWon_idle ..).trans (refreshBoth_idle ..)).quiet
      · split
        · exact hfinish
        · exact wait_quiet s r rfl
    · exact .refl s
  | vip db =>
    unfold reply
    dsimp only
    split
    · exact vipReply_quiet s r _ _ db
    · exact .refl s

end Requests

/-! ## The invariant -/

/-- Each result that was accepted or waits has an answered attack, and so has each entry no result was accepted against;
requests that were paid for are known to be. -/
structure ArenaFights.Kept (s : ArenaFights) : Prop where
  paid : ∀ r ∈ s.arena.inFlight, r.at'.charged = true → s.paid r.rid = true
  covered : ∀ pid target, s.accepted (pid, target) + s.lost.countP (fun l => l.fight = (pid, target)) +
    (if s.arena.fightList pid = some target ∧ s.used pid = false then 1 else 0) ≤ s.answered (pid, target)

namespace ArenaFights
variable {s : ArenaFights} {a : RankArena} {pid target : ℕ}

theorem Kept.cover (h : s.Kept) : s.Cover := fun pid target => by
  have := h.covered pid target
  omega

theorem init_kept (s : RankArena) : (init s).Kept := ⟨nofun, fun _ _ => by simp [init]⟩

theorem Kept.quiet (h : s.Kept) (ha : Quiet s.arena a) : Kept { s with arena := a } := by
  refine ⟨fun r hr hc => h.paid r (ha.charged r hr hc) hc, fun pid target => ?_⟩
  show s.accepted (pid, target) + s.lost.countP _ +
    (if a.fightList pid = some target ∧ s.used pid = false then 1 else 0) ≤ _
  rw [ha.fightList]
  exact h.covered pid target

theorem update_count (f : ℕ × ℕ → ℕ) (fight x : ℕ × ℕ) :
    update f fight (f fight + 1) x = f x + if fight = x then 1 else 0 := by
  by_cases hx : fight = x
  · rw [hx, update_self, if_pos rfl]
  · rw [update_of_ne (Ne.symm hx), if_neg hx]
    rfl

theorem checked_entry {targetId winner : Option ℕ} {fight : ℕ × ℕ} (h : s.arena.checked pid targetId winner = some fight) :
    s.arena.fightList pid = some fight.1 := by
  unfold checked at h
  split at h
  · split_ifs at h with hentry
    obtain rfl := Option.some.inj h
    exact hentry.1
  · exact nomatch h

theorem Kept.check (h : s.Kept) {result : Option (ℕ × ℕ)} (hentry : ∀ fight ∈ result, s.arena.fightList pid = some fight.1)
    (hunused : result.isSome = true → s.used pid = false) : (s.check pid result).Kept := by
  obtain _ | ⟨target, winner⟩ := result
  · exact h
  have hfight := hentry _ rfl
  have hfresh := hunused rfl
  have hcovered : ∀ pid' target', s.accepted (pid', target') + s.lost.countP (fun l => l.fight = (pid', target')) +
      (if (pid, target) = (pid', target') then 1 else 0) +
      (if s.arena.fightList pid' = some target' ∧ update s.used pid true pid' = false then 1 else 0) ≤
        s.answered (pid', target') := by
    intro pid' target'
    have hold := h.covered pid' target'
    by_cases hpid : pid' = pid
    · subst hpid
      rw [hfight, hfresh] at hold
      rw [update_self, hfight]
      simpa using hold
    · rw [update_of_ne hpid, if_neg fun he => hpid (Prod.mk.inj he).1.symm]
      exact hold
  unfold ArenaFights.check
  dsimp only
  split_ifs
  · refine ⟨h.paid, fun pid' target' => ?_⟩
    have := hcovered pid' target'
    show update s.accepted (pid, target) _ (pid', target') + s.lost.countP _ + _ ≤ s.answered (pid', target')
    rw [update_count]
    show s.accepted (pid', target') + _ + s.lost.countP (fun l => l.fight = (pid', target')) +
      (if s.arena.fightList pid' = some target' ∧ update s.used pid true pid' = false then 1 else 0) ≤ _
    omega
  · refine ⟨h.paid, fun pid' target' => ?_⟩
    have := hcovered pid' target'
    show s.accepted (pid', target') + (_ :: s.lost).countP (fun l : Lost => decide (l.fight = (pid', target'))) +
      (if s.arena.fightList pid' = some target' ∧ update s.used pid true pid' = false then 1 else 0) ≤ _
    rw [countP_cons]
    simp only [decide_eq_true_eq]
    omega

theorem countP_discard (l : Lost) (lost : List Lost) (hl : l ∈ lost) (p : Lost → Bool) :
    (discard Lost.rid l.rid lost).countP p + (if p l = true then 1 else 0) ≤ lost.countP p := by
  rw [Lib.discard, countP_eq_countP_filter_add lost p fun a => decide (a.rid ≠ l.rid)]
  apply Nat.add_le_add_left
  split_ifs with hp
  · exact countP_pos_iff.mpr ⟨l, mem_filter.mpr ⟨hl, by simp⟩, hp⟩
  · exact Nat.zero_le _

theorem Kept.counted (h : s.Kept) (r : Request) : (s.counted r).Kept := by
  unfold ArenaFights.counted
  cases hl : lookup Lost.rid r.rid s.lost with
  | none => exact h
  | some l =>
    obtain ⟨hmem, hrid⟩ := lookup_some hl
    refine ⟨h.paid, fun pid target => ?_⟩
    have hold := h.covered pid target
    have hdiscard := countP_discard l s.lost hmem fun l => decide (l.fight = (pid, target))
    rw [hrid] at hdiscard
    simp only [decide_eq_true_eq] at hdiscard
    show update s.accepted l.fight _ (pid, target) + (discard Lost.rid r.rid s.lost).countP _ + _ ≤ _
    rw [update_count]
    show s.accepted (pid, target) + _ + _ +
      (if s.arena.fightList pid = some target ∧ s.used pid = false then 1 else 0) ≤ s.answered (pid, target)
    omega

@[simp] theorem check_arena (s : ArenaFights) (pid : ℕ) (result : Option (ℕ × ℕ)) : (s.check pid result).arena = s.arena := by
  obtain _ | ⟨target, winner⟩ := result
  · rfl
  · unfold ArenaFights.check
    dsimp only
    split_ifs <;> rfl

@[simp] theorem counted_arena (s : ArenaFights) (r : Request) : (s.counted r).arena = s.arena := by
  unfold ArenaFights.counted
  split <;> rfl

theorem Kept.pay (h : s.Kept) (r : Request) (target : ℕ) :
    Kept { s with arena := s.arena.wait r (.attack target .attackerData), paid := update s.paid r.rid true } := by
  refine ⟨fun r' hr hc => ?_, h.covered⟩
  obtain ⟨r₀, hr₀, rfl⟩ := mem_map.mp hr
  show update s.paid r.rid true _ = true
  dsimp only at hc ⊢
  split_ifs at hc ⊢ with hkey
  · show update s.paid r.rid true r₀.rid = true
    rw [hkey, update_self]
  · rw [update_of_ne hkey]
    exact h.paid r₀ hr₀ hc

theorem Kept.goOn (h : s.Kept) {r : Request} (hpaid : s.paid r.rid = true) (w : Waiting) :
    Kept { s with arena := s.arena.wait r w } := by
  refine ⟨fun r' hr hc => ?_, h.covered⟩
  obtain ⟨r₀, hr₀, rfl⟩ := mem_map.mp hr
  dsimp only at hc ⊢
  split_ifs at hc ⊢ with hkey
  · exact hkey.symm ▸ hpaid
  · exact h.paid r₀ hr₀ hc

theorem Kept.answer (h : s.Kept) {r : Request} (hpaid : s.paid r.rid = true) (target : ℕ) :
    Kept { s.answer r target with
      arena := { s.arena with fightList := update s.arena.fightList r.pid (some target) }.finish r.rid } := by
  unfold ArenaFights.answer
  rw [if_pos hpaid]
  refine ⟨fun r' hr hc => h.paid r' (mem_discard.mp hr).1 hc, fun pid target' => ?_⟩
  have hold := h.covered pid target'
  show s.accepted (pid, target') + s.lost.countP _ + (if update s.arena.fightList r.pid (some target) pid = some target' ∧
    update s.used r.pid false pid = false then 1 else 0) ≤ update s.answered (r.pid, target) _ (pid, target')
  rw [update_count]
  by_cases hpid : pid = r.pid
  · subst hpid
    rw [update_self, update_self]
    simp only [and_true, Option.some.injEq, Prod.mk.injEq, true_and]
    omega
  · rw [update_of_ne hpid, update_of_ne hpid, if_neg fun he => hpid (Prod.mk.inj he).1.symm]
    exact hold

end ArenaFights

open ArenaFights

theorem noteReply_kept (sgk : Bool) {s : ArenaFights} (h : s.Kept) {r : Request} (hr : r ∈ s.arena.inFlight) (answer : Answer) :
    ArenaFights.Kept { s.noteReply r answer with arena := reply sgk s.arena r answer } := by
  cases answer with
  | failed => exact h.quiet (reply_quiet sgk s.arena nofun)
  | neighbors vpos => exact h.quiet (reply_quiet sgk s.arena nofun)
  | fight winner first second vpos vposTarget => exact h.quiet (reply_quiet sgk s.arena nofun)
  | vip db =>
    have hquiet : Quiet s.arena (reply sgk s.arena r (.vip db)) := reply_quiet sgk s.arena nofun
    unfold noteReply
    dsimp only
    split
    · exact (h.counted r).quiet ((counted_arena s r).symm ▸ hquiet)
    · exact h.quiet hquiet
  | ok =>
    have hidle : (∀ target call, r.at' = .attack target call → call = .level ∨ call = .fight) → s.noteReply r .ok = s →
        ArenaFights.Kept { s.noteReply r .ok with arena := reply sgk s.arena r .ok } := by
      intro hcall hnote
      rw [hnote]
      exact h.quiet (reply_quiet sgk s.arena fun _ => hcall)
    cases hat : r.at' with
    | neighbors => exact hidle (by simp [hat]) (by simp only [noteReply, hat])
    | attackSgk target call => exact hidle (by simp [hat]) (by simp only [noteReply, hat])
    | vip count time => exact hidle (by simp [hat]) (by simp only [noteReply, hat])
    | attack target call =>
      cases call with
      | level => exact hidle (by simp [hat]) (by simp only [noteReply, hat])
      | fight => exact hidle (by simp [hat]) (by simp only [noteReply, hat])
      | cost =>
        have hnote : s.noteReply r .ok = { s with paid := update s.paid r.rid true } := by simp only [noteReply, hat]
        have hreply : reply sgk s.arena r .ok = s.arena.wait r (.attack target .attackerData) := by
          simp only [reply, hat, Call.next, reduceCtorEq, if_false]
        rw [hnote, hreply]
        exact h.pay r target
      | attackerData =>
        have hnote : s.noteReply r .ok = s := by simp only [noteReply, hat]
        have hreply : reply sgk s.arena r .ok = s.arena.wait r (.attack target .defenderData) := by
          simp only [reply, hat, Call.next, reduceCtorEq, if_false]
        rw [hnote, hreply]
        exact h.goOn (h.paid r hr (by rw [hat]; rfl)) _
      | defenderData =>
        have hnote : s.noteReply r .ok = s.answer r target := by simp only [noteReply, hat]
        have hreply : reply sgk s.arena r .ok =
            { s.arena with fightList := update s.arena.fightList r.pid (some target) }.finish r.rid := by
          simp only [reply, hat, if_true]
        rw [hnote, hreply]
        exact h.answer (h.paid r hr (by rw [hat]; rfl)) target

theorem fightStep_kept (sgk : Bool) {s s' : ArenaFights} {act : Act} (h : s.Kept) (hunused : act.Unused s)
    (hstep : fightStep sgk s act = .ok s') : s'.Kept := by
  unfold fightStep step at hstep
  cases act with
  | clock seconds =>
    obtain rfl := Except.ok.inj hstep
    exact h.quiet ⟨rfl, fun _ hr _ => hr⟩
  | join pid db ais =>
    obtain rfl := Except.ok.inj hstep
    exact h.quiet (onArenaJoin_quiet ..)
  | attackSgk pid targetPos targetId =>
    obtain rfl := Except.ok.inj hstep
    exact h.quiet (onArenaAttackSgk_quiet ..)
  | attack pid targetId =>
    obtain rfl := Except.ok.inj hstep
    exact h.quiet (onArenaAttack_quiet ..)
  | fightCheck pid targetId winner first second vpos =>
    obtain rfl := Except.ok.inj hstep
    have hcheck := h.check (fun fight hfight => checked_entry hfight) hunused
    refine hcheck.quiet ?_
    rw [check_arena]
    exact onArenaFightCheck_quiet ..
  | reply rid answer =>
    dsimp only at hstep
    cases hr : lookup Request.rid rid s.arena.inFlight with
    | none =>
      rw [hr] at hstep
      obtain rfl := Except.ok.inj hstep
      simp only [note, hr]
      exact h
    | some r =>
      rw [hr] at hstep
      obtain rfl := Except.ok.inj hstep
      simp only [note, hr]
      exact noteReply_kept sgk h (lookup_some hr).1 answer

instance (s : ArenaFights) : ∀ act : Act, Decidable (act.Unused s)
  | .fightCheck .. => inferInstanceAs (Decidable (_ → _))
  | .clock _ => .isTrue trivial
  | .join .. => .isTrue trivial
  | .attackSgk .. => .isTrue trivial
  | .attack .. => .isTrue trivial
  | .reply .. => .isTrue trivial

theorem paidAttacks_cover (sgk : Bool) (s : RankArena) (acts : List Act)
    (h : Along (fightStep sgk) (fun s act => act.Unused s) (init s) acts) :
    Throughout (fightStep sgk) ArenaFights.Cover (init s) acts :=
  run_throughout (fun _ => Kept.cover) (fun _ _ _ => fightStep_kept sgk) acts _ (init_kept s) h

def twoPlayers : RankArena where
  rows id := if id = 7 then some { order := 2 } else if id = 8 then some { order := 1 } else none
  all id := if id = 7 then some ⟨{ order := 2 }, [8]⟩ else if id = 8 then some ⟨{ order := 1 }, [7]⟩ else none
  count := 2
  maxOrder := 2
  arenaQueue k := if k = 2 then some 7 else if k = 1 then some 8 else none
  now := 1300000000

theorem paidAttacks_cover_twice :
    Throughout (fightStep false) ArenaFights.Cover (init twoPlayers)
      [.attack 7 8, .reply 0 .ok, .reply 0 .ok, .reply 0 .ok, .reply 0 .ok,
        .fightCheck 7 (some 8) (some 2) ⟨some [8], true⟩ ⟨some [7], true⟩ [], .attack 7 8, .reply 1 (.vip ⟨some [8], true⟩),
        .reply 2 .ok, .reply 2 .ok, .reply 2 .ok, .reply 2 .ok, .fightCheck 7 (some 9) (some 1) ⟨none, true⟩ ⟨none, true⟩ [],
        .fightCheck 7 (some 8) (some 1) ⟨some [8], true⟩ ⟨some [7], false⟩ [2]] :=
  paidAttacks_cover false twoPlayers _ (by decide +kernel)

/-- The result of one attack is sent twice and accepted twice. -/
theorem paidAttacks_reused :
    ¬ Throughout (fightStep false) ArenaFights.Cover (init twoPlayers)
      [.attack 7 8, .reply 0 .ok, .reply 0 .ok, .reply 0 .ok, .reply 0 .ok,
        .fightCheck 7 (some 8) (some 1) ⟨some [8], true⟩ ⟨some [7], true⟩ [],
        .fightCheck 7 (some 8) (some 1) ⟨some [8], true⟩ ⟨some [7], true⟩ []] := by
  refine not_throughout (fun s => decide (s.answered (7, 8) < s.accepted (7, 8))) (by decide +kernel) fun s hs h => ?_
  exact absurd (h 7 8) (not_le.mpr (of_decide_eq_true hs))

end CServer.Arena
