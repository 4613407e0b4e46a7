import CServer.Fight.Timeline
import CServer.Lib.Rounds

/-! # `fight/battlefield/Timeline.lua`: the turns of a round

The objects in the current queue and on the wait stack are the active ones of a lineup, those in the
queue for the next round rest, and the log tells the rounds they take turns in.
-/
namespace CServer.Fight
open CServer.Lib Function List Option

def TimelineEvent.roundEvent : TimelineEvent → Option (RoundEvent ℕ)
  | .enter obj => some (.join obj)
  | .removed obj => some (.leave obj)
  | .afterAction obj => some (.finish obj)
  | .turn obj => some (.serve obj)
  | .beforeRound objs => some (.round objs)
  | .noObject => some .idle
  | .nextWave => some .regroup
  | _ => none

namespace Timeline

def history (s : Timeline) : List (RoundEvent ℕ) := s.log.filterMap TimelineEvent.roundEvent

def lineup (s : Timeline) : Lineup ℕ := ⟨(s.currentQueue.array : Multiset ℕ) + s.waitStack.array, s.nextQueue.array⟩

def located (s : Timeline) (obj : ℕ) : ℕ :=
  s.currentQueue.array.count obj + s.waitStack.array.count obj + s.nextQueue.array.count obj

structure Placed (s : Timeline) : Prop where
  current : s.currentQueue.Agrees
  wait : s.waitStack.Agrees
  next : s.nextQueue.Agrees
  located : ∀ obj, s.located obj = if s.timeline obj then 1 else 0

theorem placed_new (speed : ℕ → ℤ) (pos : ℕ → ℕ) : (timelineNew speed pos).Placed :=
  ⟨TimelineArray.agrees_new, TimelineArray.agrees_new, TimelineArray.agrees_new, fun _ => rfl⟩

def Refines (s s' : Timeline) : Prop :=
  s.Placed → s'.Placed ∧
    ∃ es, s'.log = es ++ s.log ∧ s.lineup.Trace (es.filterMap TimelineEvent.roundEvent) s'.lineup

section
variable {s s' s'' : Timeline} {obj : ℕ}

/-! ## Composing steps -/

theorem Refines.trans (h : s.Refines s') (h' : s'.Refines s'') : s.Refines s'' := by
  intro hs
  obtain ⟨hs', es, hlog, htrace⟩ := h hs
  obtain ⟨hs'', es', hlog', htrace'⟩ := h' hs'
  refine ⟨hs'', es' ++ es, ?_, ?_⟩
  · rw [hlog', hlog, append_assoc]
  · rw [filterMap_append]
    exact htrace.append htrace'

theorem Refines.via (s' : Timeline) (h : s.Refines s') (h' : s'.Refines s'') : s.Refines s'' := h.trans h'

theorem Refines.event (es : List TimelineEvent) {e : RoundEvent ℕ} (hlog : s'.log = es ++ s.log)
    (hes : es.filterMap TimelineEvent.roundEvent = [e])
    (h : s.Placed → s'.Placed ∧ s.lineup.Step s'.lineup e) : s.Refines s' := by
  intro hs
  refine ⟨(h hs).1, es, hlog, ?_⟩
  rw [hes]
  exact .single (h hs).2

def queues (s : Timeline) : TimelineArray × TimelineArray × TimelineArray × (ℕ → Bool) :=
  (s.currentQueue, s.waitStack, s.nextQueue, s.timeline)

theorem Placed.of_queues (h : s'.queues = s.queues) (hs : s.Placed) : s'.Placed := by
  simp only [queues, Prod.mk.injEq] at h
  obtain ⟨hc, hw, hn, ht⟩ := h
  refine ⟨hc ▸ hs.current, hw ▸ hs.wait, hn ▸ hs.next, fun obj => ?_⟩
  rw [ht, ← hs.located obj, Timeline.located, Timeline.located, hc, hw, hn]

theorem lineup_of_queues (h : s'.queues = s.queues) : s'.lineup = s.lineup := by
  simp only [queues, Prod.mk.injEq] at h
  obtain ⟨hc, hw, hn, -⟩ := h
  rw [lineup, lineup, hc, hw, hn]

theorem Refines.quiet (h : s'.queues = s.queues) (es : List TimelineEvent) (hlog : s'.log = es ++ s.log)
    (hes : es.filterMap TimelineEvent.roundEvent = []) : s.Refines s' := by
  intro hs
  refine ⟨hs.of_queues h, es, hlog, ?_⟩
  rw [hes, lineup_of_queues h]
  exact .nil

theorem Refines.same (h : s'.queues = s.queues) (hlog : s'.log = s.log) : s.Refines s' := .quiet h [] hlog rfl

theorem Refines.refl (s : Timeline) : s.Refines s := .same rfl rfl

theorem refines_push (s : Timeline) (is : List TimelineInstr) : s.Refines (s.push is) := .same rfl rfl

theorem refines_fail (s : Timeline) (e : TimelineError) : s.Refines (s.fail e) := .quiet rfl [.failed e] rfl rfl

theorem refines_bump (s : Timeline) (r : TickReason) : s.Refines (s.bump r) := .quiet rfl [.ticked r] rfl rfl

/-! ## Where objects are -/

theorem Placed.once (hs : s.Placed) (obj : ℕ) : s.located obj ≤ 1 := by
  rw [hs.located obj]
  split
  · exact le_refl 1
  · exact Nat.zero_le 1

theorem Placed.counts (hs : s.Placed) (obj : ℕ) :
    s.currentQueue.array.count obj + s.waitStack.array.count obj + s.nextQueue.array.count obj ≤ 1 := hs.once obj

theorem Placed.of_current (hs : s.Placed) (hmem : obj ∈ s.currentQueue.array) :
    s.currentQueue.array.count obj = 1 ∧ obj ∉ s.waitStack.array ∧ obj ∉ s.nextQueue.array := by
  have hone := hs.counts obj
  have hpos := count_pos_iff.mpr hmem
  exact ⟨by omega, count_eq_zero.mp (by omega), count_eq_zero.mp (by omega)⟩

theorem Placed.of_wait (hs : s.Placed) (hmem : obj ∈ s.waitStack.array) :
    s.waitStack.array.count obj = 1 ∧ obj ∉ s.currentQueue.array ∧ obj ∉ s.nextQueue.array := by
  have hone := hs.counts obj
  have hpos := count_pos_iff.mpr hmem
  exact ⟨by omega, count_eq_zero.mp (by omega), count_eq_zero.mp (by omega)⟩

theorem Placed.absent (hs : s.Placed) (h : s.timeline obj = false) : s.located obj = 0 := by
  rw [hs.located obj, h]
  rfl

theorem mem_all : obj ∈ s.lineup.all ↔ 0 < s.located obj := by
  rw [← Multiset.count_pos, Lineup.all, lineup, Multiset.count_add, Multiset.count_add, Multiset.coe_count,
    Multiset.coe_count, Multiset.coe_count, located]

theorem active_eq {s s' : Timeline} (h : ∀ x, s'.currentQueue.array.count x + s'.waitStack.array.count x =
    s.currentQueue.array.count x + s.waitStack.array.count x) : s'.lineup.active = s.lineup.active := by
  refine Multiset.ext.mpr fun x => ?_
  simp only [lineup, Multiset.count_add, Multiset.coe_count]
  exact h x

theorem active_cons (h : ∀ x, s.currentQueue.array.count x + s.waitStack.array.count x =
    s'.currentQueue.array.count x + s'.waitStack.array.count x + if x = obj then 1 else 0) :
    s.lineup.active = obj ::ₘ s'.lineup.active := by
  refine Multiset.ext.mpr fun x => ?_
  simp only [lineup, Multiset.count_cons, Multiset.count_add, Multiset.coe_count]
  exact h x

theorem resting_eq (h : ∀ x, s'.nextQueue.array.count x = s.nextQueue.array.count x) :
    s'.lineup.resting = s.lineup.resting := by
  refine Multiset.ext.mpr fun x => ?_
  simp only [lineup, Multiset.coe_count]
  exact h x

theorem resting_cons (h : ∀ x, s'.nextQueue.array.count x = s.nextQueue.array.count x + if x = obj then 1 else 0) :
    s'.lineup.resting = obj ::ₘ s.lineup.resting := by
  refine Multiset.ext.mpr fun x => ?_
  simp only [lineup, Multiset.count_cons, Multiset.coe_count]
  exact h x

theorem agrees_sort (cfg : TimelineConfig) {q : TimelineArray} (h : q.Agrees) : (s.sort cfg q).Agrees :=
  TimelineArray.Agrees.arranged _ _ _ _ h

theorem count_sort (cfg : TimelineConfig) {q : TimelineArray} (h : q.Agrees) (x : ℕ) :
    (s.sort cfg q).array.count x = q.array.count x :=
  (TimelineArray.arranged_perm _ _ _ _ h).count_eq x

theorem mem_of_nextObj (h : s.nextObj = some obj) : obj ∈ s.lineup.active := by
  unfold nextObj TimelineArray.peek at h
  rw [orElse_eq_orElse, orElse_eq_or, or_eq_some_iff] at h
  apply Multiset.mem_add.mpr
  cases h with
  | inl h => exact .inl (List.mem_of_getLast? h)
  | inr h => exact .inr (List.mem_of_getLast? h.2)

theorem active_of_nextObj (h : s.nextObj = none) : s.lineup.active = 0 := by
  unfold nextObj TimelineArray.peek at h
  rw [orElse_eq_orElse, orElse_eq_or, or_eq_none_iff, List.getLast?_eq_none_iff,
    List.getLast?_eq_none_iff] at h
  rw [lineup, h.1, h.2]
  rfl

/-! ## The moves -/

section
variable (cfg : TimelineConfig)

theorem refines_of_still (hlog : s'.log = s.log) (h : s.Placed → s'.Placed ∧ s'.lineup = s.lineup) : s.Refines s' := by
  intro hs
  obtain ⟨hs', heq⟩ := h hs
  refine ⟨hs', [], hlog, ?_⟩
  rw [heq]
  exact .nil

theorem refines_enqueue (hnew : s.timeline obj = false) : s.Refines (s.enqueue cfg obj) := by
  refine .event [.enter obj] rfl rfl fun hs => ?_
  have hzero := hs.absent hnew
  unfold located at hzero
  have hnot : obj ∉ s.nextQueue.array := count_eq_zero.mp (by omega)
  have hpush := hs.next.push obj
  have hnext (x : ℕ) : (s.enqueue cfg obj).nextQueue.array.count x =
      s.nextQueue.array.count x + if x = obj then 1 else 0 :=
    (count_sort cfg hpush x).trans (TimelineArray.count_push hs.next hnot x)
  refine ⟨⟨hs.current, hs.wait, agrees_sort cfg hpush, fun x => ?_⟩, ?_, rfl, resting_cons hnext⟩
  · have hloc := hs.located x
    unfold located at hloc ⊢
    rw [hnext x, ← Nat.add_assoc]
    change s.currentQueue.array.count x + s.waitStack.array.count x + s.nextQueue.array.count x + _ =
      if update s.timeline obj true x then 1 else 0
    rw [hloc]
    by_cases hx : x = obj
    · rw [hx, hnew, update_self, if_pos rfl, if_pos rfl, if_neg Bool.false_ne_true]
    · rw [update_of_ne hx, if_neg hx, Nat.add_zero]
  · rw [mem_all]
    unfold located
    omega

theorem refines_enterTimeline (hnew : s.timeline obj = false) : s.Refines (s.enterTimeline cfg obj) := by
  refine (refines_enqueue cfg hnew).trans ?_
  unfold enterTimeline
  simp only
  split
  · exact .same rfl rfl
  · exact .refl _

theorem refines_add (obj wave : ℕ) : s.Refines (s.add cfg obj wave) := by
  unfold add
  split
  · exact refines_fail s .noSide
  · split
    · exact refines_fail s .addedTwice
    · rename_i hnew
      split
      · exact refines_fail s .wrongWave
      · simp only
        split
        · refine Refines.via ({ s with lock := update s.lock obj false, winner := none }) ?_ ?_
          · exact .same rfl rfl
          · exact refines_enterTimeline cfg (by simpa using hnew)
        · exact .same rfl rfl

theorem Placed.moved (hs : s.Placed) (htimeline : s'.timeline = s.timeline) (hcurrent : s'.currentQueue.Agrees)
    (hwait : s'.waitStack.Agrees) (hnext : s'.nextQueue.Agrees) (hcount : ∀ x, s'.located x = s.located x) :
    s'.Placed :=
  ⟨hcurrent, hwait, hnext, fun x => by rw [hcount, hs.located x, htimeline]⟩

theorem refines_finishCurrent (hmem : obj ∈ s.currentQueue.array) : s.Refines (s.finishCurrent cfg obj) := by
  refine .event [.afterAction obj] rfl rfl fun hs => ?_
  obtain ⟨hone, -, hnot⟩ := hs.of_current hmem
  have hremove : (s.currentQueue.remove obj).Agrees := hs.current.remove (by omega)
  have hpush := hs.next.push obj
  have hc (x : ℕ) : (s.finishCurrent cfg obj).currentQueue.array.count x =
      s.currentQueue.array.count x - if x = obj then 1 else 0 :=
    (count_sort cfg hremove x).trans (TimelineArray.count_remove x)
  have hn (x : ℕ) : (s.finishCurrent cfg obj).nextQueue.array.count x =
      s.nextQueue.array.count x + if x = obj then 1 else 0 :=
    (count_sort cfg hpush x).trans (TimelineArray.count_push hs.next hnot x)
  have hw : (s.finishCurrent cfg obj).waitStack = s.waitStack := rfl
  have hback (x : ℕ) : s.currentQueue.array.count x =
      (s.finishCurrent cfg obj).currentQueue.array.count x + if x = obj then 1 else 0 := by
    rw [hc x]
    split
    · rename_i hx
      subst hx
      omega
    · rfl
  refine ⟨hs.moved rfl (agrees_sort cfg hremove) hs.wait (agrees_sort cfg hpush) fun x => ?_, ?_, resting_cons hn⟩
  · unfold located
    rw [hn x, hw, hback x]
    omega
  · refine active_cons fun x => ?_
    rw [hw, hback x]
    omega

theorem refines_finishWaiting (hmem : obj ∈ s.waitStack.array) : s.Refines (s.finishWaiting cfg obj) := by
  refine .event [.afterAction obj] rfl rfl fun hs => ?_
  obtain ⟨hone, -, hnot⟩ := hs.of_wait hmem
  have hpush := hs.next.push obj
  have hn (x : ℕ) : (s.finishWaiting cfg obj).nextQueue.array.count x =
      s.nextQueue.array.count x + if x = obj then 1 else 0 :=
    (count_sort cfg hpush x).trans (TimelineArray.count_push hs.next hnot x)
  have hback (x : ℕ) : s.waitStack.array.count x =
      (s.finishWaiting cfg obj).waitStack.array.count x + if x = obj then 1 else 0 := by
    change _ = (s.waitStack.remove obj).array.count x + _
    rw [TimelineArray.count_remove x]
    split
    · rename_i hx
      subst hx
      omega
    · rfl
  have hc : (s.finishWaiting cfg obj).currentQueue = s.currentQueue := rfl
  refine ⟨hs.moved rfl hs.current (hs.wait.remove (by omega)) (agrees_sort cfg hpush) fun x => ?_, ?_, resting_cons hn⟩
  · unfold located
    rw [hn x, hc, hback x]
    omega
  · refine active_cons fun x => ?_
    rw [hc, hback x]
    omega

theorem refines_unitFinished (obj : ℕ) (rest : List TimelineInstr) : s.Refines (s.unitFinished cfg obj rest) := by
  unfold unitFinished
  split
  · rename_i hmem
    exact (refines_finishCurrent cfg hmem).trans (refines_push _ _)
  · split
    · rename_i hmem
      exact (refines_finishWaiting cfg hmem).trans (refines_push _ _)
    · exact refines_push s _

theorem refines_sortCurrent : s.Refines { s with currentQueue := s.sort cfg s.currentQueue } := by
  refine refines_of_still rfl fun hs => ?_
  have hc (x : ℕ) := count_sort (s := s) cfg hs.current x
  refine ⟨hs.moved rfl (agrees_sort cfg hs.current) hs.wait hs.next fun x => ?_, ?_⟩
  · unfold located
    rw [hc x]
  · exact congrArg₂ Lineup.mk (active_eq fun x => by rw [hc x]) rfl

theorem refines_sortNext : s.Refines { s with nextQueue := s.sort cfg s.nextQueue } := by
  refine refines_of_still rfl fun hs => ?_
  have hn (x : ℕ) := count_sort (s := s) cfg hs.next x
  refine ⟨hs.moved rfl hs.current hs.wait (agrees_sort cfg hs.next) fun x => ?_, ?_⟩
  · unfold located
    rw [hn x]
  · exact congrArg₂ Lineup.mk rfl (resting_eq hn)

theorem refines_unitSpeedChange (obj : ℕ) : s.Refines (s.unitSpeedChange cfg obj) := by
  unfold unitSpeedChange
  split
  · exact refines_sortCurrent cfg
  · split
    · exact refines_sortNext cfg
    · exact .refl s

theorem refines_wait (hmem : s.currentQueue.find obj = true) : s.Refines (s.wait obj) := by
  refine refines_of_still rfl fun hs => ?_
  obtain ⟨hone, hnot, -⟩ := hs.of_current ((hs.current obj).mp hmem)
  have hcount (x : ℕ) : (s.wait obj).currentQueue.array.count x + (s.wait obj).waitStack.array.count x =
      s.currentQueue.array.count x + s.waitStack.array.count x := by
    change (s.currentQueue.remove obj).array.count x + (s.waitStack.push obj).array.count x = _
    rw [TimelineArray.count_remove x, TimelineArray.count_push hs.wait hnot x]
    split
    · rename_i hx
      subst hx
      omega
    · rfl
  refine ⟨hs.moved rfl (hs.current.remove (by omega)) (hs.wait.push obj) hs.next fun x => ?_, ?_⟩
  · unfold located
    rw [hcount x]
    rfl
  · exact congrArg₂ Lineup.mk (active_eq hcount) rfl

theorem find_wait {other : ℕ} (hne : obj ≠ other) (h : s.currentQueue.find obj = true) :
    (s.wait other).currentQueue.find obj = true := by
  change (s.currentQueue.remove other).objs obj = true
  unfold TimelineArray.remove
  split
  · exact (update_of_ne hne _ _).trans h
  · exact h

theorem refines_unitWait (obj : ℕ) : s.Refines (s.unitWait cfg obj) := by
  unfold unitWait
  refine Refines.via ({ s with lock := update s.lock obj false }) (.same rfl rfl) ?_
  simp only
  split
  · rename_i hfind
    split
    · rename_i assistant hassistant
      unfold assistantToPostpone at hassistant
      obtain ⟨-, hboth⟩ := filter_eq_some_iff.mp hassistant
      rw [Bool.and_eq_true, decide_eq_true_eq] at hboth
      exact (refines_wait hboth.2).trans (refines_wait (find_wait hboth.1 hfind))
    · exact refines_wait hfind
  · exact .refl _

/-! ## Removal -/

theorem refines_leave (obj : ℕ) (forceRemove : Bool) : s.Refines (s.leave cfg obj forceRemove) := by
  unfold leave
  simp only
  split
  · exact refines_fail s .nilValue
  · exact .same rfl rfl

theorem Placed.without (hs : s.Placed) (htimeline : s'.timeline = update s.timeline obj false)
    (hcurrent : s'.currentQueue.Agrees) (hwait : s'.waitStack.Agrees) (hnext : s'.nextQueue.Agrees)
    (hcount : ∀ x, s'.located x = s.located x - if x = obj then 1 else 0) : s'.Placed := by
  refine ⟨hcurrent, hwait, hnext, fun x => ?_⟩
  rw [hcount x, htimeline]
  by_cases hx : x = obj
  · have := hs.once x
    rw [if_pos hx, hx, update_self, if_neg Bool.false_ne_true]
    rw [hx] at this
    omega
  · rw [if_neg hx, Nat.sub_zero, update_of_ne hx, hs.located x]

theorem count_taken {a b : ℕ} (x : ℕ) (hb : b = a - if x = obj then 1 else 0) (hpos : x = obj → 0 < a) :
    a = b + if x = obj then 1 else 0 := by
  rw [hb]
  split
  · rename_i hx
    have := hpos hx
    omega
  · rfl

theorem refines_takeCurrent (hfind : s.currentQueue.find obj = true) :
    s.Refines ((s.unlist obj).takeCurrent cfg obj) := by
  refine .event [.removed obj] rfl rfl fun hs => ?_
  have hone := hs.counts obj
  have hpos := count_pos_iff.mpr ((hs.current obj).mp hfind)
  have hremove : (s.currentQueue.remove obj).Agrees := hs.current.remove (by omega)
  have hc (x : ℕ) : ((s.unlist obj).takeCurrent cfg obj).currentQueue.array.count x =
      s.currentQueue.array.count x - if x = obj then 1 else 0 :=
    (count_sort cfg hremove x).trans (TimelineArray.count_remove x)
  have hback (x : ℕ) := count_taken x (hc x) fun hx => hx ▸ hpos
  refine ⟨hs.without rfl (agrees_sort cfg hremove) hs.wait hs.next fun x => ?_, .inl ⟨active_cons fun x => ?_, rfl⟩⟩
  · unfold located
    rw [hback x]
    change _ + s.waitStack.array.count x + s.nextQueue.array.count x = _
    omega
  · rw [hback x]
    change _ = _ + s.waitStack.array.count x + _
    omega

theorem refines_takeWaiting (hfind : s.waitStack.find obj = true) : s.Refines ((s.unlist obj).takeWaiting obj) := by
  refine .event [.removed obj] rfl rfl fun hs => ?_
  have hone := hs.counts obj
  have hpos := count_pos_iff.mpr ((hs.wait obj).mp hfind)
  have hw (x : ℕ) : ((s.unlist obj).takeWaiting obj).waitStack.array.count x =
      s.waitStack.array.count x - if x = obj then 1 else 0 := TimelineArray.count_remove x
  have hback (x : ℕ) := count_taken x (hw x) fun hx => hx ▸ hpos
  refine ⟨hs.without rfl hs.current (hs.wait.remove (by omega)) hs.next fun x => ?_, .inl ⟨active_cons fun x => ?_, rfl⟩⟩
  · unfold located
    rw [hback x]
    change s.currentQueue.array.count x + _ + s.nextQueue.array.count x = _
    omega
  · rw [hback x]
    change _ = s.currentQueue.array.count x + _ + _
    omega

theorem refines_takeNext (hfind : s.nextQueue.find obj = true) : s.Refines ((s.unlist obj).takeNext cfg obj) := by
  refine .event [.removed obj] rfl rfl fun hs => ?_
  have hone := hs.counts obj
  have hpos := count_pos_iff.mpr ((hs.next obj).mp hfind)
  have hremove : (s.nextQueue.remove obj).Agrees := hs.next.remove (by omega)
  have hn (x : ℕ) : ((s.unlist obj).takeNext cfg obj).nextQueue.array.count x =
      s.nextQueue.array.count x - if x = obj then 1 else 0 :=
    (count_sort cfg hremove x).trans (TimelineArray.count_remove x)
  have hback (x : ℕ) := count_taken x (hn x) fun hx => hx ▸ hpos
  refine ⟨hs.without rfl hs.current hs.wait (agrees_sort cfg hremove) fun x => ?_, .inr ⟨rfl, resting_cons hback⟩⟩
  unfold located
  rw [hback x]
  change s.currentQueue.array.count x + s.waitStack.array.count x + _ = _
  omega

theorem refines_unlist (hcurrent : s.currentQueue.find obj = false) (hwait : s.waitStack.find obj = false)
    (hnext : s.nextQueue.find obj = false) : s.Refines (s.unlist obj) := by
  refine refines_of_still rfl fun hs => ⟨?_, rfl⟩
  have habsent (q : TimelineArray) (hq : q.Agrees) (h : q.find obj = false) : q.array.count obj = 0 :=
    count_eq_zero.mpr fun hmem => Bool.false_ne_true (h.symm.trans ((hq obj).mpr hmem))
  have hzero : s.located obj = 0 := by
    rw [located, habsent _ hs.current hcurrent, habsent _ hs.wait hwait, habsent _ hs.next hnext]
  refine hs.without rfl hs.current hs.wait hs.next fun x => ?_
  change s.located x = _
  split
  · rename_i hx
    rw [hx, hzero]
  · rfl

theorem refines_remove (obj : ℕ) (forceRemove : Bool) : s.Refines (s.remove cfg obj forceRemove) := by
  unfold remove
  simp only
  split
  · rename_i hfind
    exact (refines_takeCurrent (s := s) cfg hfind).trans (refines_leave cfg obj forceRemove)
  · rename_i hcurrent
    split
    · rename_i hfind
      exact (refines_takeWaiting (s := s) hfind).trans (refines_leave cfg obj forceRemove)
    · rename_i hwait
      split
      · rename_i hfind
        exact (refines_takeNext (s := s) cfg hfind).trans (refines_leave cfg obj forceRemove)
      · rename_i hnext
        refine Refines.trans (refines_unlist ?_ ?_ ?_) (refines_fail _ .notInTimeline)
        · exact Bool.eq_false_of_not_eq_true hcurrent
        · exact Bool.eq_false_of_not_eq_true hwait
        · exact Bool.eq_false_of_not_eq_true hnext

/-! ## Rounds and waves -/

theorem moveBoth_spec {a b c : TimelineArray} (lock : ℕ → Bool) (ha : a.Agrees) (hb : b.Agrees) (hc : c.Agrees)
    (hone : ∀ x, a.array.count x + b.array.count x + c.array.count x ≤ 1) :
    let m := TimelineArray.moveAll a.array.length a c lock
    let m' := TimelineArray.moveAll b.array.length b m.2.1 m.2.2
    (m.1.array = [] ∧ m.1.Agrees) ∧ (m'.1.array = [] ∧ m'.1.Agrees) ∧ m'.2.1.Agrees ∧
      ∀ x, m'.2.1.array.count x = a.array.count x + b.array.count x + c.array.count x := by
  intro m m'
  obtain ⟨hnil, hagree, hto, hcount⟩ := TimelineArray.moveAll_spec a.array.length a c lock rfl ha hc
    fun x => by have := hone x; omega
  obtain ⟨hnil', hagree', hto', hcount'⟩ := TimelineArray.moveAll_spec b.array.length b m.2.1 m.2.2 rfl hb hto
    fun x => by have h1 := hone x; have h2 := hcount x; simp only [m]; omega
  refine ⟨⟨hnil, hagree⟩, ⟨hnil', hagree'⟩, hto', fun x => ?_⟩
  have h1 := hcount x
  have h2 := hcount' x
  simp only [m, m'] at h1 h2 ⊢
  omega

theorem located_eq (x : ℕ) : s.located x = s.lineup.all.count x := by
  simp only [located, Lineup.all, lineup, Multiset.count_add, Multiset.coe_count]

theorem refines_nextRound : s.Refines (s.nextRound cfg) := by
  refine .event [.beforeRound (s.nextRound cfg).currentQueue.array, .ticked .beforeRound] rfl rfl fun hs => ?_
  obtain ⟨⟨hnil, hnext⟩, ⟨hnil', hwait⟩, hto, hcount⟩ := moveBoth_spec s.lock hs.next hs.wait hs.current
    fun x => by have h := hs.once x; unfold located at h; omega
  have hc (x : ℕ) : (s.nextRound cfg).currentQueue.array.count x = s.located x := by
    refine (count_sort cfg hto x).trans ((hcount x).trans ?_)
    unfold located
    omega
  have hnilNext : (s.nextRound cfg).nextQueue.array = [] := hnil
  have hnilWait : (s.nextRound cfg).waitStack.array = [] := hnil'
  have hall : ((s.nextRound cfg).currentQueue.array : Multiset ℕ) = s.lineup.all :=
    Multiset.ext.mpr fun x => by rw [Multiset.coe_count, hc x, located_eq]
  refine ⟨hs.moved rfl (agrees_sort cfg hto) hwait hnext fun x => ?_, ?_, ?_, hall⟩
  · unfold located
    rw [hnilNext, hnilWait, hc x]
    rfl
  · rw [lineup, hall, hnilWait]
    exact Multiset.add_zero _
  · rw [lineup, hnilNext]
    rfl

theorem refines_enterWave : s.Refines (s.enterWave cfg) := by
  refine .event [.nextWave] rfl rfl fun hs => ?_
  obtain ⟨⟨hnil, hcurrent⟩, ⟨hnil', hwait⟩, hto, hcount⟩ := moveBoth_spec s.lock hs.current hs.wait hs.next hs.once
  have hn (x : ℕ) : (s.enterWave cfg).nextQueue.array.count x = s.located x :=
    (count_sort cfg hto x).trans (hcount x)
  have hnilCurrent : (s.enterWave cfg).currentQueue.array = [] := hnil
  have hnilWait : (s.enterWave cfg).waitStack.array = [] := hnil'
  refine ⟨hs.moved rfl hcurrent hwait (agrees_sort cfg hto) fun x => ?_, ?_, ?_⟩
  · unfold located
    rw [hnilCurrent, hnilWait, hn x, count_nil, Nat.zero_add]
    rfl
  · rw [lineup, hnilCurrent, hnilWait]
    rfl
  · exact Multiset.ext.mpr fun x => by rw [lineup, Multiset.coe_count, hn x, located_eq]

theorem refines_nextWave : s.Refines (s.nextWave cfg) := by
  unfold nextWave
  split
  · exact refines_fail s _
  · exact refines_push s _
  · exact refines_enterWave cfg

theorem refines_checkWinner : s.Refines (s.checkWinner cfg) := by
  unfold checkWinner
  split
  · exact refines_fail s _
  · exact .refl s
  · rename_i winner _
    split
    · exact .refl s
    · refine Refines.via ({ s with winner := some winner }) (.same rfl rfl) ?_
      simp only
      split
      · split
        · exact refines_unitFinished cfg _ _
        · exact refines_push _ _
      · exact refines_push _ _

theorem refines_waveAdded (currentWave : ℕ) : s.Refines (s.waveAdded currentWave) := by
  unfold waveAdded
  split
  · exact refines_push s _
  · split
    · exact .quiet rfl [.ticked .wave] rfl rfl
    · exact .same rfl rfl

/-! ## `Tick` -/

theorem refines_turn (hobj : s.nextObj = some obj) (renew ready : Bool) : s.Refines (s.turn obj renew ready) := by
  have hserve {s' : Timeline} (h : s'.queues = s.queues) (hs : s.Placed) :
      s'.Placed ∧ s.lineup.Step s'.lineup (.serve obj) :=
    ⟨hs.of_queues h, mem_of_nextObj hobj, lineup_of_queues h⟩
  unfold turn
  split
  · split
    · exact .event [.turn obj] rfl rfl (hserve rfl)
    · exact .refl s
  · simp only
    split
    · exact .event [.turn obj, .ticked .prepareAction] rfl rfl (hserve rfl)
    · exact .event [.turn obj] rfl rfl (hserve rfl)

theorem refines_tickRest (renew ready : Bool) : s.Refines (s.tickRest cfg renew ready) := by
  unfold tickRest
  split
  · split
    · split
      · exact refines_unitFinished cfg _ _
      · exact refines_push s _
    · exact refines_push s _
  · split
    · exact Refines.via ({ s with callNextRoundOnNextTick := false }) (.same rfl rfl) (refines_nextRound cfg)
    · split
      · rename_i hnone
        refine .event [.noObject] rfl rfl fun hs => ⟨?_, active_of_nextObj hnone, rfl⟩
        exact Placed.of_queues (s := s) rfl hs
      · rename_i hobj
        exact refines_turn hobj renew ready

theorem refines_prepared (obj : ℕ) (ready : Bool) : s.Refines (s.prepared obj ready) := by
  unfold prepared
  split
  · simp only
    split
    · exact .quiet rfl [.failed .nilValue, .ticked .readyAction] rfl rfl
    · split
      · exact .quiet rfl [.ticked .readyAction] rfl rfl
      · split
        · exact .quiet rfl [.action obj, .ticked .readyAction] rfl rfl
        · exact .quiet rfl [.ticked .startAction, .ticked .readyAction] rfl rfl
  · exact .same rfl rfl

theorem refines_finishRoundEnd : s.Refines s.finishRoundEnd := by
  unfold finishRoundEnd
  split
  · exact .quiet rfl [.roundEnd] rfl rfl
  · exact refines_fail s .roundTick

theorem refines_finished : s.Refines s.finished := by
  unfold finished
  split
  · exact .quiet rfl [.ticked .finished] rfl rfl
  · exact .refl s

theorem refines_finishRound : s.Refines s.finishRound := by
  unfold finishRound
  split
  · exact refines_push s _
  · exact .refl s

theorem refines_finisheWave : s.Refines (s.finisheWave cfg) := by
  unfold finisheWave
  split
  · exact .same rfl rfl
  · exact .refl s

theorem refines_tickStart (renew ready : Bool) : s.Refines (s.tickStart renew ready) := by
  unfold tickStart
  split
  · exact .refl s
  · split
    · exact .same rfl rfl
    · split
      · exact .quiet rfl [.ticked .endAction] rfl rfl
      · split
        · exact .same rfl rfl
        · exact refines_push s _

/-! ## Runs -/

theorem refines_exec (i : TimelineInstr) : s.Refines (s.exec cfg i) := by
  cases i with
  | callback => exact .refl s
  | ret => exact .refl s
  | add obj wave => exact refines_add cfg obj wave
  | resetWinner => exact .same rfl rfl
  | unitFinishedEnd => exact .quiet rfl [.ticked .objFinished] rfl rfl
  | tickRest renew ready => exact refines_tickRest cfg renew ready
  | beforeActionEnd => exact refines_bump s .beforeAction
  | prepared obj ready => exact refines_prepared obj ready
  | checkWinner => exact refines_checkWinner cfg
  | finishRound => exact refines_finishRound
  | finishRoundEnd => exact refines_finishRoundEnd
  | finisheWave => exact refines_finisheWave cfg
  | callNextRound => exact .same rfl rfl
  | callNextWave => exact .same rfl rfl
  | nextWave => exact refines_nextWave cfg
  | waveAdded currentWave => exact refines_waveAdded currentWave
  | finished => exact refines_finished
  | finishedEnd => exact .same rfl rfl
  | tooMuchAction => exact refines_fail s .tooMuchAction

theorem refines_summon (id pos : ℕ) (remove : Bool) (visit : List ℕ) : s.Refines (s.summon cfg id pos remove visit) := by
  unfold summon
  split
  · exact .refl s
  · simp only
    split
    · exact .same rfl rfl
    · exact refines_push s _

theorem refines_unitRelive (obj : ℕ) : s.Refines (s.unitRelive obj) := by
  unfold unitRelive
  split
  · exact .same rfl rfl
  · exact .refl s

theorem refines_deliver : s.Refines (s.deliver cfg) := by
  unfold deliver
  split
  · exact .refl s
  · rename_i obj events _
    exact Refines.via ({ s with events := events }) (.same rfl rfl) (refines_unitFinished cfg obj [.ret])

theorem refines_call (c : TimelineCall) : s.Refines (s.call cfg c) := by
  cases c with
  | add obj wave => exact refines_push s _
  | assist obj => exact .same rfl rfl
  | summon id pos remove visit => exact refines_summon cfg id pos remove visit
  | remove obj forceRemove => exact (refines_push s [.ret]).trans (refines_remove cfg obj forceRemove)
  | setForceWinner winner => exact .same rfl rfl
  | setSpeed obj speed => exact .same rfl rfl
  | setPos obj pos => exact .same rfl rfl
  | unitSpeedChange obj => exact refines_unitSpeedChange cfg obj
  | unitRelive obj => exact refines_unitRelive obj
  | unitWait obj => exact refines_unitWait cfg obj
  | unitFinished => exact refines_deliver cfg
  | enterDone => exact .same rfl rfl
  | actionDone obj finished => exact .same rfl rfl
  | tick renew ready => exact refines_tickStart renew ready

theorem step_refines {act : TimelineAct} (hstep : timelineStep cfg s act = .ok s') : s.Refines s' := by
  obtain rfl | ⟨c, -, rfl⟩ | ⟨i, is, -, -, rfl⟩ := timelineStep_cases hstep
  · exact .refl _
  · exact refines_call cfg c
  · exact Refines.via ({ s with todo := is }) (.same rfl rfl) (refines_exec cfg i)

end

structure TakesTurns (s : Timeline) : Prop where
  placed : s.Placed
  trace : (⟨0, 0⟩ : Lineup ℕ).Trace s.history s.lineup

theorem TakesTurns.of_refines (h : s.TakesTurns) (hrefines : s.Refines s') : s'.TakesTurns := by
  obtain ⟨hplaced, es, hlog, htrace⟩ := hrefines h.placed
  refine ⟨hplaced, ?_⟩
  rw [history, hlog, filterMap_append]
  exact h.trace.append htrace

end

theorem takesTurns_new (speed : ℕ → ℤ) (pos : ℕ → ℕ) : (timelineNew speed pos).TakesTurns :=
  ⟨placed_new speed pos, .nil⟩

/-- In every state of every run, no object has been finished twice between two calls of `NextRound`, none
has been given a turn in the round in which it was added or revived, and whenever `Tick` has ended a round
without a `NextWave` in it because no object was left, every object that was in the queues when the round
began and was not removed has been finished exactly once in it. -/
theorem turns_fair (cfg : TimelineConfig) (speed : ℕ → ℤ) (pos : ℕ → ℕ) (acts : List TimelineAct) :
    Throughout (timelineStep cfg) (fun s => FairHistory s.history) (timelineNew speed pos) acts :=
  run_throughout (fun _ h => fair_of_trace h.trace) (fun _ _ _ h _ hstep => h.of_refines (step_refines cfg hstep)) acts
    _ (takesTurns_new speed pos) (along_of_forall acts _ fun _ _ => trivial)

end Timeline
end CServer.Fight
