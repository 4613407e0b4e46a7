import CServer.Fight.TimelineMembership

/-! # `fight/battlefield/Timeline.lua`: the winner by elimination

`side_left` is counted up by `Add` and down by `Remove`, apart from the queues; the other operations move objects between
the queues. An assistant is not counted, so the count needs a side to have one assistant at most, which stays:
`Battle:AddRole` calls `Assist` once.
-/
namespace CServer.Fight
open CServer.Lib Function Option
open List hiding lookup

namespace LuaTable
variable {β : Type}

theorem get_set (t : LuaTable β) (k : ℕ) (v : β) (j : ℕ) : (t.set k v).get j = if j = k then some v else t.get j := by
  by_cases h : j = k
  · rw [if_pos h, get, set, lookup, List.find?_cons, h]
    simp
  · have hkj : k ≠ j := Ne.symm h
    rw [if_neg h, get, set, lookup, List.find?_cons]
    simp only [hkj, decide_false]
    rw [unset, Lib.discard, get, lookup, List.find?_filter]
    refine congrArg (Option.map Prod.snd) (congrArg (fun p => List.find? p t) (funext fun a => ?_))
    by_cases ha : a.1 = j
    · simp [ha, h]
    · simp [ha]

theorem length_pos_of_get {t : LuaTable β} {k : ℕ} {v : β} (h : t.get k = some v) : 0 < t.length := by
  obtain ⟨p, hp, -⟩ := map_eq_some_iff.mp h
  exact length_pos_of_mem (lookup_some hp).1

theorem two_le_length {t : LuaTable β} {v w : β} (h1 : t.get 1 = some v) (h2 : t.get 2 = some w) : 2 ≤ t.length := by
  obtain ⟨p, hp, -⟩ := map_eq_some_iff.mp h1
  obtain ⟨q, hq, -⟩ := map_eq_some_iff.mp h2
  obtain ⟨hp, hp1⟩ := lookup_some hp
  obtain ⟨hq, hq2⟩ := lookup_some hq
  have hne : p ≠ q := by
    rintro rfl
    omega
  match t, hp, hq with
  | [a], hp, hq => exact absurd ((mem_singleton.mp hp).trans (mem_singleton.mp hq).symm) hne
  | _ :: _ :: _, _, _ => exact Nat.le_add_left 2 _

theorem ipairs_two (t : LuaTable β) (h3 : t.get 3 = none) :
    t.ipairs = match t.get 1, t.get 2 with
      | none, _ => []
      | some v, none => [(1, v)]
      | some v, some w => [(1, v), (2, w)] := by
  have hstop (k n : ℕ) (hk : t.get (k + 1) = none) :
      (((List.range' k n).map fun k => (t.get (k + 1)).map fun v => (k + 1, v)).takeWhile Option.isSome) = [] := by
    cases n with
    | zero => rfl
    | succ n =>
      rw [range'_succ, map_cons, hk]
      rfl
  unfold ipairs
  rw [range_eq_range']
  cases h1 : t.get 1 with
  | none =>
    rw [hstop 0 t.length h1]
    rfl
  | some v =>
    obtain ⟨n, hn⟩ := Nat.exists_eq_succ_of_ne_zero (length_pos_of_get h1).ne'
    rw [hn, range'_succ, map_cons, h1, map_some, takeWhile_cons_of_pos rfl]
    cases h2 : t.get 2 with
    | none =>
      rw [hstop 1 n h2]
      rfl
    | some w =>
      obtain ⟨m, rfl⟩ := Nat.exists_eq_succ_of_ne_zero (show n ≠ 0 by have := two_le_length h1 h2; omega)
      rw [range'_succ, map_cons, h2, map_some, takeWhile_cons_of_pos rfl, hstop 2 m h3]
      rfl

end LuaTable

namespace Timeline

def objs (s : Timeline) : List ℕ := s.currentQueue.array ++ s.waitStack.array ++ s.nextQueue.array

def units (cfg : TimelineConfig) (s : Timeline) (side : ℕ) : List ℕ :=
  s.objs.filter fun obj => decide ((cfg.unit obj).side = side ∧ s.assitObjects side ≠ some obj)

/-- The count of a side is right, and where `GetWinner` decides by counting, it names no winner exactly if both sides are
left, and a side only if that one alone is. -/
structure Elimination (cfg : TimelineConfig) (s : Timeline) : Prop where
  left : ∀ side, (s.sideLeft.get side).getD 0 = ((s.units cfg side).length : ℤ)
  winner : s.forceWinner = none → s.winner = none → s.checkRoundLimit cfg = .ok none →
    ∃ winner, s.getWinner cfg = .ok winner ∧ (winner = none ↔ s.units cfg 1 ≠ [] ∧ s.units cfg 2 ≠ []) ∧
      ∀ w, winner = some w → 0 < w → s.units cfg w ≠ [] ∧ ∀ other, other ≠ w → s.units cfg other = []

/-- No assistant is removed, and `Assist` brings the first assistant of a side, which is not in the timeline. -/
def KeepsAssistant (cfg : TimelineConfig) (s : Timeline) : TimelineAct → Prop
  | .call (.assist obj) => s.timeline obj = false ∧ s.assitObjects (cfg.unit obj).side = none
  | .call (.remove obj _) => s.assitObjects (cfg.unit obj).side ≠ some obj
  | _ => True

instance (cfg : TimelineConfig) (s : Timeline) (act : TimelineAct) : Decidable (s.KeepsAssistant cfg act) :=
  match act with
  | .call (.assist obj) =>
    inferInstanceAs (Decidable (s.timeline obj = false ∧ s.assitObjects (cfg.unit obj).side = none))
  | .call (.remove obj _) => inferInstanceAs (Decidable (s.assitObjects (cfg.unit obj).side ≠ some obj))
  | .call (.add ..) | .call (.summon ..) | .call (.setForceWinner _) | .call (.setSpeed ..) | .call (.setPos ..)
  | .call (.unitSpeedChange _) | .call (.unitRelive _) | .call (.unitWait _) | .call .unitFinished | .call .enterDone
  | .call (.actionDone ..) | .call (.tick ..) | .next => .isTrue trivial

/-! ## The count -/

variable {cfg : TimelineConfig} {s s' : Timeline} {obj : ℕ}

theorem count_objs (s : Timeline) (x : ℕ) : s.objs.count x = s.located x := by
  rw [objs, count_append, count_append, located]

theorem objs_perm (hs : s.Placed) (hs' : s'.Placed) (hobj : s.timeline obj = false)
    (ht : s'.timeline = update s.timeline obj true) : s'.objs.Perm (obj :: s.objs) := by
  refine perm_iff_count.mpr fun x => ?_
  rw [count_cons, count_objs, count_objs, hs'.located, hs.located, ht, TimelineArray.beq_one]
  exact spots_timeline hobj x

theorem length_units (h : s'.objs.Perm (obj :: s.objs)) (ha : s'.assitObjects = s.assitObjects) (side : ℕ) :
    (s'.units cfg side).length = (s.units cfg side).length +
      if (cfg.unit obj).side = side ∧ s.assitObjects side ≠ some obj then 1 else 0 := by
  rw [units, units, ha, (h.filter _).length_eq, filter_cons]
  by_cases hobj : (cfg.unit obj).side = side ∧ s.assitObjects side ≠ some obj
  · rw [if_pos (decide_eq_true hobj), if_pos hobj, length_cons]
  · rw [if_neg (by simpa using hobj), if_neg hobj, Nat.add_zero]

/-- The count of each side is right; the sides are 1 and 2. -/
structure Counted (cfg : TimelineConfig) (s : Timeline) : Prop where
  placed : s.Placed
  left : ∀ side, (s.sideLeft.get side).getD 0 = ((s.units cfg side).length : ℤ)
  sides : ∀ side, side ≠ 1 → side ≠ 2 → s.sideLeft.get side = none

def tally (s : Timeline) : (ℕ → Bool) × LuaTable ℤ × (ℕ → Option ℕ) := (s.timeline, s.sideLeft, s.assitObjects)

theorem Counted.of_tally (h : s.Counted cfg) (hplaced : s'.Placed) (htally : s'.tally = s.tally) : s'.Counted cfg := by
  simp only [tally, Prod.mk.injEq] at htally
  obtain ⟨ht, hl, ha⟩ := htally
  have hperm : s'.objs.Perm s.objs := by
    refine perm_iff_count.mpr fun x => ?_
    rw [count_objs, count_objs, hplaced.located, h.placed.located, ht]
  refine ⟨hplaced, fun side => ?_, fun side h1 h2 => ?_⟩
  · rw [hl, h.left, units, units, ha, (hperm.filter _).length_eq]
  · rw [hl, h.sides side h1 h2]

theorem Counted.of_queues (h : s.Counted cfg) (hqueues : s'.queues = s.queues) (htally : s'.tally = s.tally) :
    s'.Counted cfg := h.of_tally (h.placed.of_queues hqueues) htally

/-! ## The operations -/

section
variable (cfg)

theorem tally_ite {c : Prop} [Decidable c] {t e : Timeline} (ht : t.tally = s.tally) (he : e.tally = s.tally) :
    (if c then t else e).tally = s.tally := by
  split
  · exact ht
  · exact he

theorem tally_unitFinished (s : Timeline) (obj : ℕ) (rest : List TimelineInstr) :
    (s.unitFinished cfg obj rest).tally = s.tally := tally_ite rfl (tally_ite rfl rfl)

theorem tally_checkWinner (s : Timeline) : (s.checkWinner cfg).tally = s.tally := by
  unfold checkWinner
  split
  · rfl
  · rfl
  · split
    · rfl
    · simp only
      split
      · split
        · exact tally_unitFinished cfg _ _ _
        · rfl
      · rfl

theorem tally_nextWave (s : Timeline) : (s.nextWave cfg).tally = s.tally := by
  unfold nextWave
  split
  · rfl
  · rfl
  · rfl

theorem tally_turn (s : Timeline) (obj : ℕ) (renew ready : Bool) : (s.turn obj renew ready).tally = s.tally := by
  unfold turn
  split
  · split
    · rfl
    · rfl
  · simp only
    split
    · rfl
    · rfl

theorem tally_tickRest (s : Timeline) (renew ready : Bool) : (s.tickRest cfg renew ready).tally = s.tally := by
  unfold tickRest
  split
  · split
    · split
      · exact tally_unitFinished cfg _ _ _
      · rfl
    · rfl
  · split
    · rfl
    · split
      · rfl
      · exact tally_turn _ _ _ _

theorem tally_prepared (s : Timeline) (obj : ℕ) (ready : Bool) : (s.prepared obj ready).tally = s.tally := by
  unfold prepared
  split
  · simp only
    split
    · rfl
    · split
      · rfl
      · split
        · rfl
        · rfl
  · rfl

theorem tally_tickStart (s : Timeline) (renew ready : Bool) : (s.tickStart renew ready).tally = s.tally := by
  unfold tickStart
  refine tally_ite rfl (tally_ite rfl ?_)
  split
  · rfl
  · exact tally_ite rfl rfl

theorem tally_summon (s : Timeline) (id pos : ℕ) (remove : Bool) (visit : List ℕ) :
    (s.summon cfg id pos remove visit).tally = s.tally := by
  unfold summon
  split
  · rfl
  · simp only
    split
    · rfl
    · rfl

theorem tally_deliver (s : Timeline) : (s.deliver cfg).tally = s.tally := by
  unfold deliver
  split
  · rfl
  · exact tally_unitFinished cfg _ _ _

theorem tally_exec (s : Timeline) {i : TimelineInstr} (hi : i.added = none) : (s.exec cfg i).tally = s.tally := by
  cases i with
  | add obj wave => cases hi
  | callback => rfl
  | ret => rfl
  | resetWinner => rfl
  | unitFinishedEnd => rfl
  | tickRest renew ready => exact tally_tickRest cfg s renew ready
  | beforeActionEnd => rfl
  | prepared obj ready => exact tally_prepared s obj ready
  | checkWinner => exact tally_checkWinner cfg s
  | finishRound => exact tally_ite rfl rfl
  | finishRoundEnd => exact tally_ite rfl rfl
  | finisheWave => exact tally_ite rfl rfl
  | callNextRound => rfl
  | callNextWave => rfl
  | nextWave => exact tally_nextWave cfg s
  | waveAdded currentWave => exact tally_ite rfl (tally_ite rfl rfl)
  | finished => exact tally_ite rfl rfl
  | finishedEnd => rfl
  | tooMuchAction => rfl

theorem Counted.enqueue (h : s.Counted cfg) (hside : (cfg.unit obj).side = 1 ∨ (cfg.unit obj).side = 2)
    (hnew : s.timeline obj = false) : (s.enqueue cfg obj).Counted cfg := by
  have hplaced : (s.enqueue cfg obj).Placed := (refines_enqueue cfg hnew h.placed).1
  have hperm := objs_perm h.placed hplaced hnew rfl
  have hleft : (s.enqueue cfg obj).sideLeft = if s.assitObjects (cfg.unit obj).side ≠ some obj then
      s.sideLeft.set (cfg.unit obj).side ((s.sideLeft.get (cfg.unit obj).side).getD 0 + 1) else s.sideLeft := rfl
  refine ⟨hplaced, fun side => ?_, fun side h1 h2 => ?_⟩
  · rw [length_units hperm rfl side, hleft]
    by_cases hassist : s.assitObjects (cfg.unit obj).side ≠ some obj
    · rw [if_pos hassist, LuaTable.get_set]
      by_cases hs : side = (cfg.unit obj).side
      · subst hs
        rw [if_pos rfl, if_pos ⟨rfl, hassist⟩, getD_some, h.left]
        rfl
      · rw [if_neg hs, if_neg fun hc => hs hc.1.symm, h.left]
        rfl
    · have hnone : ¬((cfg.unit obj).side = side ∧ s.assitObjects side ≠ some obj) := fun hc => hassist (hc.1 ▸ hc.2)
      rw [if_neg hassist, if_neg hnone, h.left]
      rfl
  · rw [hleft]
    split
    · rw [LuaTable.get_set, if_neg (by omega), h.sides side h1 h2]
    · exact h.sides side h1 h2

theorem Counted.add (h : s.Counted cfg) (hside : (cfg.unit obj).side = 1 ∨ (cfg.unit obj).side = 2) (wave : ℕ) :
    (s.add cfg obj wave).Counted cfg := by
  unfold Timeline.add
  split
  · exact h.of_queues rfl rfl
  · split
    · exact h.of_queues rfl rfl
    · split
      · exact h.of_queues rfl rfl
      · rename_i hnew _
        have hreset : Counted cfg { s with lock := update s.lock obj false, winner := none } :=
          h.of_queues rfl rfl
        simp only
        split
        · unfold enterTimeline
          have hentered := hreset.enqueue cfg hside (Bool.not_eq_true _ ▸ hnew)
          simp only
          split
          · exact hentered.of_queues rfl rfl
          · exact hentered
        · exact hreset.of_queues rfl rfl

theorem mem_units (hs : s.Placed) (hobj : s.timeline obj = true) (hnot : s.assitObjects (cfg.unit obj).side ≠ some obj) :
    obj ∈ s.units cfg (cfg.unit obj).side := by
  refine mem_filter.mpr ⟨?_, decide_eq_true ⟨rfl, hnot⟩⟩
  rw [← count_pos_iff, count_objs, hs.located, if_pos hobj]
  exact Nat.one_pos

theorem Counted.leave (h : s.Counted cfg) (hobj : s.timeline obj = true)
    (hnot : s.assitObjects (cfg.unit obj).side ≠ some obj) {s₁ : Timeline}
    (htally : s₁.tally = (update s.timeline obj false, s.sideLeft, s.assitObjects)) (forceRemove : Bool)
    (hplaced : (s₁.leave cfg obj forceRemove).Placed) : (s₁.leave cfg obj forceRemove).Counted cfg := by
  simp only [tally, Prod.mk.injEq] at htally
  obtain ⟨ht, hl, ha⟩ := htally
  have hpos : 0 < (s.units cfg (cfg.unit obj).side).length := length_pos_of_mem (mem_units cfg h.placed hobj hnot)
  have hcount := h.left (cfg.unit obj).side
  cases hget : s.sideLeft.get (cfg.unit obj).side with
  | none =>
    rw [hget, getD_none] at hcount
    omega
  | some n =>
    rw [hget, getD_some] at hcount
    rw [← hl] at hget
    obtain ⟨s', hs', ht', hl', ha'⟩ : ∃ s', s₁.leave cfg obj forceRemove = s' ∧ s'.timeline = s₁.timeline ∧
        s'.sideLeft = s₁.sideLeft.set (cfg.unit obj).side (n - 1) ∧ s'.assitObjects = s₁.assitObjects := by
      unfold Timeline.leave
      simp only [hget]
      exact ⟨_, rfl, rfl, rfl, rfl⟩
    rw [hs'] at hplaced ⊢
    rw [ht] at ht'
    rw [ha] at ha'
    have hback : s.timeline = update s'.timeline obj true := by
      rw [ht', update_idem, ← hobj, update_eq_self]
    have hperm : s.objs.Perm (obj :: s'.objs) :=
      objs_perm hplaced h.placed (by rw [ht']; exact update_self ..) hback
    refine ⟨hplaced, fun side => ?_, fun side h1 h2 => ?_⟩
    · have hlen : (s.units cfg side).length = _ := length_units hperm ha'.symm side
      have hold := h.left side
      rw [hl', LuaTable.get_set, hl]
      by_cases hs : side = (cfg.unit obj).side
      · subst hs
        rw [ha', if_pos ⟨rfl, hnot⟩] at hlen
        rw [if_pos rfl, getD_some]
        omega
      · rw [if_neg fun hc => hs hc.1.symm] at hlen
        rw [if_neg hs]
        omega
    · have hside : side ≠ (cfg.unit obj).side := by
        rintro rfl
        rw [hl, h.sides _ h1 h2] at hget
        cases hget
      rw [hl', LuaTable.get_set, if_neg hside, hl, h.sides side h1 h2]

theorem Counted.remove (h : s.Counted cfg) (hnot : s.assitObjects (cfg.unit obj).side ≠ some obj) (forceRemove : Bool) :
    (s.remove cfg obj forceRemove).Counted cfg := by
  have hplaced : (s.remove cfg obj forceRemove).Placed := (refines_remove cfg obj forceRemove h.placed).1
  have hlisted (hq : obj ∈ s.currentQueue.array ∨ obj ∈ s.waitStack.array ∨ obj ∈ s.nextQueue.array) :
      s.timeline obj = true := by
    refine h.placed.timeline_of_mem ?_
    unfold located
    simp only [← count_pos_iff] at hq
    omega
  unfold Timeline.remove at hplaced ⊢
  simp only at hplaced ⊢
  split at hplaced
  · rename_i hfind
    rw [if_pos hfind]
    exact h.leave cfg (hlisted (.inl ((h.placed.current obj).mp hfind))) hnot rfl forceRemove hplaced
  · rename_i hcurrent
    rw [if_neg hcurrent]
    split at hplaced
    · rename_i hfind
      rw [if_pos hfind]
      exact h.leave cfg (hlisted (.inr (.inl ((h.placed.wait obj).mp hfind)))) hnot rfl forceRemove hplaced
    · rename_i hwait
      rw [if_neg hwait]
      split at hplaced
      · rename_i hfind
        rw [if_pos hfind]
        exact h.leave cfg (hlisted (.inr (.inr ((h.placed.next obj).mp hfind)))) hnot rfl forceRemove hplaced
      · rename_i hnext
        rw [if_neg hnext]
        -- an object in no queue: its `timeline` is not set anyway
        have hfalse : s.timeline obj = false := by
          by_contra htrue
          have hone := h.placed.located obj
          rw [if_pos (Bool.not_eq_false _ ▸ htrue)] at hone
          unfold located at hone
          have hc : s.currentQueue.array.count obj = 0 :=
            count_eq_zero.mpr fun hmem => hcurrent ((h.placed.current obj).mpr hmem)
          have hw : s.waitStack.array.count obj = 0 := count_eq_zero.mpr fun hmem => hwait ((h.placed.wait obj).mpr hmem)
          have hn : s.nextQueue.array.count obj = 0 := count_eq_zero.mpr fun hmem => hnext ((h.placed.next obj).mpr hmem)
          omega
        refine h.of_tally hplaced ?_
        change (update s.timeline obj false, s.sideLeft, s.assitObjects) = s.tally
        rw [← hfalse, update_eq_self]
        rfl

theorem Counted.assist (h : s.Counted cfg) (hnew : s.timeline obj = false)
    (hfirst : s.assitObjects (cfg.unit obj).side = none) : (s.call cfg (.assist obj)).Counted cfg := by
  have hplaced : (s.call cfg (.assist obj)).Placed := (refines_call cfg (.assist obj) h.placed).1
  refine ⟨hplaced, fun side => ?_, h.sides⟩
  have hunits : (s.call cfg (.assist obj)).units cfg side = s.units cfg side := by
    refine filter_congr fun x hx => ?_
    have hxo : x ≠ obj := by
      rintro rfl
      have hpos := count_pos_iff.mpr hx
      rw [count_objs, hplaced.located] at hpos
      change 0 < if s.timeline x then 1 else 0 at hpos
      rw [hnew] at hpos
      exact absurd hpos (by decide)
    refine decide_eq_decide.mpr (and_congr_right fun _ => ?_)
    change update s.assitObjects (cfg.unit obj).side (some obj) side ≠ some x ↔ _
    by_cases hs : side = (cfg.unit obj).side
    · rw [hs, update_self, hfirst]
      simp [Ne.symm hxo]
    · rw [update_of_ne hs]
  rw [hunits]
  exact h.left side

theorem Counted.of_call (h : s.Counted cfg) {c : TimelineCall} (hc : s.KeepsAssistant cfg (.call c)) :
    (s.call cfg c).Counted cfg := by
  have hplaced : (s.call cfg c).Placed := (refines_call cfg c h.placed).1
  cases c with
  | assist obj => exact h.assist cfg hc.1 hc.2
  | remove obj forceRemove =>
    have hpushed : (s.push [.ret]).Counted cfg := h.of_queues rfl rfl
    exact hpushed.remove cfg hc forceRemove
  | add obj wave => exact h.of_queues rfl rfl
  | summon id pos remove visit => exact h.of_tally hplaced (tally_summon cfg s id pos remove visit)
  | setForceWinner winner => exact h.of_queues rfl rfl
  | setSpeed obj speed => exact h.of_queues rfl rfl
  | setPos obj pos => exact h.of_queues rfl rfl
  | unitSpeedChange obj => exact h.of_tally hplaced (tally_ite rfl (tally_ite rfl rfl))
  | unitRelive obj => exact h.of_tally hplaced (tally_ite rfl rfl)
  | unitWait obj =>
    refine h.of_tally hplaced (tally_ite ?_ rfl)
    split
    · rfl
    · rfl
  | unitFinished => exact h.of_tally hplaced (tally_deliver cfg s)
  | enterDone => exact h.of_queues rfl rfl
  | actionDone obj finished => exact h.of_queues rfl rfl
  | tick renew ready => exact h.of_tally hplaced (tally_tickStart s renew ready)

theorem Counted.step (h : s.Counted cfg) (hsides : ∀ obj, (cfg.unit obj).side = 1 ∨ (cfg.unit obj).side = 2)
    {act : TimelineAct} (hact : s.KeepsAssistant cfg act) (hstep : timelineStep cfg s act = .ok s') : s'.Counted cfg := by
  have hplaced := (step_refines cfg hstep h.placed).1
  obtain rfl | ⟨c, rfl, rfl⟩ | ⟨i, is, rfl, -, rfl⟩ := timelineStep_cases hstep
  · exact h
  · exact h.of_call cfg hact
  · cases hi : i.added with
    | none => exact h.of_tally hplaced (tally_exec cfg { s with todo := is } hi)
    | some obj =>
      cases i with
      | add obj wave =>
        have hpopped : Counted cfg { s with todo := is } := h.of_queues rfl rfl
        exact hpopped.add cfg (hsides obj) wave
      | _ => cases hi

end

/-! ## The winner -/

theorem getWinner_count (hforce : s.forceWinner = none) (hwinner : s.winner = none)
    (hlimit : s.checkRoundLimit cfg = .ok none) (h3 : s.sideLeft.get 3 = none) :
    s.getWinner cfg = .ok (if 0 < (s.sideLeft.get 1).getD 0 then if 0 < (s.sideLeft.get 2).getD 0 then none else some 1
      else if (s.sideLeft.get 1).isSome ∧ 0 < (s.sideLeft.get 2).getD 0 then some 2 else some 0) := by
  unfold getWinner
  rw [hforce, hwinner, hlimit, LuaTable.ipairs_two s.sideLeft h3]
  cases s.sideLeft.get 1 with
  | none => rfl
  | some v =>
    cases s.sideLeft.get 2 with
    | none =>
      by_cases hv : 0 < v
      · simp [hv]
      · simp [hv]
    | some w =>
      by_cases hv : 0 < v
      · by_cases hw : 0 < w
        · simp [hv, hw]
        · simp [hv, hw]
      · by_cases hw : 0 < w
        · simp [hv, hw]
        · simp [hv, hw]

theorem units_eq_nil (hsides : ∀ obj, (cfg.unit obj).side = 1 ∨ (cfg.unit obj).side = 2) (s : Timeline) {side : ℕ}
    (h1 : side ≠ 1) (h2 : side ≠ 2) : s.units cfg side = [] := by
  refine filter_eq_nil_iff.mpr fun obj _ => ?_
  have hside := hsides obj
  rw [decide_eq_true_eq]
  rintro ⟨rfl, -⟩
  exact hside.elim h1 h2

theorem Counted.winners (h : s.Counted cfg) (hsides : ∀ obj, (cfg.unit obj).side = 1 ∨ (cfg.unit obj).side = 2) :
    s.Elimination cfg := by
  refine ⟨h.left, fun hforce hwinner hlimit => ⟨_, getWinner_count hforce hwinner hlimit (h.sides 3 ?_ ?_), ?_⟩⟩
  · decide
  · decide
  · have hpos (side : ℕ) : 0 < (s.sideLeft.get side).getD 0 ↔ s.units cfg side ≠ [] := by
      rw [h.left side, ← length_pos_iff]
      exact Int.natCast_pos
    simp only [hpos]
    have honly (w other : ℕ) (h1 : w = 1 → s.units cfg 2 = []) (h2 : w = 2 → s.units cfg 1 = []) (hw : w = 1 ∨ w = 2)
        (hne : other ≠ w) : s.units cfg other = [] := by
      by_cases ho1 : other = 1
      · exact ho1 ▸ h2 (by omega)
      · by_cases ho2 : other = 2
        · exact ho2 ▸ h1 (by omega)
        · exact units_eq_nil hsides s ho1 ho2
    by_cases h1 : s.units cfg 1 = []
    · rw [if_neg (not_not_intro h1)]
      split
      · rename_i h2
        refine ⟨by simp [h1], fun w hw _ => ?_⟩
        obtain rfl := some.inj hw
        exact ⟨h2.2, fun other => honly 2 other (fun h => absurd h (by decide)) (fun _ => h1) (.inr rfl)⟩
      · refine ⟨by simp [h1], fun w hw hpos => ?_⟩
        obtain rfl := some.inj hw
        exact absurd hpos (lt_irrefl 0)
    · rw [if_pos h1]
      split
      · rename_i h2
        exact ⟨by simp [h1, h2], nofun⟩
      · rename_i h2
        rw [not_not] at h2
        refine ⟨by simp [h2], fun w hw _ => ?_⟩
        obtain rfl := some.inj hw
        exact ⟨h1, fun other => honly 1 other (fun _ => h2) (fun h => absurd h (by decide)) (.inl rfl)⟩

theorem counted_new (cfg : TimelineConfig) (speed : ℕ → ℤ) (pos : ℕ → ℕ) : (timelineNew speed pos).Counted cfg :=
  ⟨placed_new speed pos, fun _ => rfl, fun _ _ _ => rfl⟩

/-- In every run that keeps the assistants, with objects of the sides 1 and 2. -/
theorem elimination (cfg : TimelineConfig) (hsides : ∀ obj, (cfg.unit obj).side = 1 ∨ (cfg.unit obj).side = 2)
    (speed : ℕ → ℤ) (pos : ℕ → ℕ) (acts : List TimelineAct)
    (h : Along (timelineStep cfg) (KeepsAssistant cfg) (timelineNew speed pos) acts) :
    Throughout (timelineStep cfg) (Elimination cfg) (timelineNew speed pos) acts :=
  run_throughout (fun _ hs => hs.winners hsides) (fun _ _ _ hs hact hstep => hs.step cfg hsides hact hstep) acts _
    (counted_new cfg speed pos) h

theorem elimination_duel :
    Throughout (timelineStep duelConfig) (Elimination duelConfig) (timelineNew (fun _ => 0) id)
      ([.call (.assist 9), .next, .next] ++ duelStart ++ [.call (.remove 2 false), .next, .next] ++ tickAct ++ tickAct) := by
  refine elimination duelConfig (fun obj => ?_) _ _ _ ?_
  · change (if obj = 1 then 1 else 2) = 1 ∨ (if obj = 1 then 1 else 2) = 2
    split
    · exact .inl rfl
    · exact .inr rfl
  · decide +kernel

end Timeline
end CServer.Fight
