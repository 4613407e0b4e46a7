import CServer.Fight.Replicas
import CServer.Fight.TimelineMembership

/-! # `fight/battlefield/Timeline.lua`: the order of the queues

`order_queue_sort` sorts a queue only if it is `dirty`, and only `array_push` makes it so. Every push into the current or
the next queue is followed by a sort within the same operation, so that both are clean whenever `UNIT_SPEED_CHANGE`
arrives: it never sorts, and a queue has the order that the objects had when one of them was last pushed into it.
-/
namespace CServer.Fight
open CServer.Lib Function List Bool

/-! ## Clean and dirty queues -/

namespace TimelineArray
variable {q a b : TimelineArray} {obj : ℕ}

theorem remove_sublist (q : TimelineArray) (obj : ℕ) : (q.remove obj).array.Sublist q.array := by
  unfold remove
  split
  · have hsub : (q.array.reverse.erase obj).Sublist q.array.reverse := erase_sublist
    simpa using hsub.reverse
  · exact .refl _

@[simp] theorem remove_dirty (q : TimelineArray) (obj : ℕ) : (q.remove obj).dirty = q.dirty := by
  unfold remove
  split
  · rfl
  · rfl

theorem not_mem_remove (hone : q.array.count obj ≤ 1) : obj ∉ (q.remove obj).array := by
  rw [← count_eq_zero, count_remove, if_pos rfl]
  omega

theorem filter_insertBefore (p r : ℕ → Bool) (hobj : r obj = false) (l : List ℕ) :
    (insertBefore p obj l).filter r = l.filter r := by
  induction l with
  | nil => rw [insertBefore, filter_cons_of_neg (by rw [hobj]; decide)]
  | cons x l ih =>
    rw [insertBefore]
    split
    · rw [filter_cons_of_neg (by rw [hobj]; decide)]
    · rw [filter_cons, filter_cons, ih]

theorem filter_erase (r : ℕ → Bool) (hobj : r obj = false) (l : List ℕ) : (l.erase obj).filter r = l.filter r := by
  induction l with
  | nil => rfl
  | cons x l ih =>
    by_cases hx : x = obj
    · rw [hx, erase_cons_head, filter_cons_of_neg (by rw [hobj]; decide)]
    · rw [erase_cons_tail (by simpa using hx), filter_cons, filter_cons, ih]

theorem filter_sortAssistant (assistant : Option ℕ) (ofSide : ℕ → Bool) (q : TimelineArray) :
    (q.sortAssistant assistant ofSide).array.filter (fun x => decide (assistant ≠ some x)) =
      q.array.filter fun x => decide (assistant ≠ some x) := by
  unfold sortAssistant
  cases assistant with
  | none => rfl
  | some obj =>
    have hobj : decide (some obj ≠ some obj) = false := decide_eq_false (not_not_intro rfl)
    simp only
    split
    · rw [filter_insertBefore _ _ hobj]
      unfold remove
      split
      · change List.filter _ (q.array.reverse.erase obj).reverse = _
        rw [filter_reverse, filter_erase (fun x => decide (some obj ≠ some x)) hobj, filter_reverse,
          reverse_reverse]
      · rfl
    · rfl

theorem sortAssistant_dirty (assistant : Option ℕ) (ofSide : ℕ → Bool) (q : TimelineArray) :
    (q.sortAssistant assistant ofSide).dirty = q.dirty := by
  unfold sortAssistant
  cases assistant with
  | none => rfl
  | some obj =>
    simp only
    split
    · exact remove_dirty q obj
    · rfl

theorem moveAll_flags (n : ℕ) : ∀ (a b : TimelineArray) (lock : ℕ → Bool), a.array.length = n → a.Agrees → b.Agrees →
    (∀ x, a.array.count x + b.array.count x ≤ 1) →
    (moveAll n a b lock).1.dirty = a.dirty ∧
      ((moveAll n a b lock).2.1.dirty = true ∨
        a.array = [] ∧ (moveAll n a b lock).2.1 = b ∧ (moveAll n a b lock).2.2 = lock) ∧
      ∀ x, (moveAll n a b lock).2.2 x = if x ∈ a.array then false else lock x := by
  induction n with
  | zero =>
    intro a b lock hn _ _ _
    have hnil := eq_nil_of_length_eq_zero hn
    refine ⟨rfl, .inr ⟨hnil, rfl, rfl⟩, fun x => ?_⟩
    rw [hnil, if_neg not_mem_nil, moveAll]
  | succ n ih =>
    intro a b lock hn ha hb hone
    have hne : a.array ≠ [] := fun h => by simp [h] at hn
    obtain ⟨obj, a', hpop, hl, ha', hdirty, hcount, hnot⟩ :=
      ha.pop (fun x => (Nat.le_add_right _ _).trans (hone x)) hne
    have hnotb : obj ∉ b.array := by
      have hobj := hone obj
      rw [hcount, if_pos rfl] at hobj
      exact count_eq_zero.mp (by omega)
    have hlen : a'.array.length = n := by
      rw [hl] at hn
      simpa using hn
    obtain ⟨hfrom, hto, hlock⟩ := ih a' (b.push obj) (update lock obj false) hlen ha' (hb.push obj)
      (fun x => by
        have h1 := hone x
        rw [hcount] at h1
        rw [count_push hb hnotb]
        omega)
    unfold moveAll
    rw [hpop]
    refine ⟨hfrom.trans hdirty, .inl ?_, fun x => ?_⟩
    · rcases hto with hto | ⟨-, hsame, -⟩
      · exact hto
      · rw [hsame, push_new hb hnotb]
    · rw [hlock x, hl]
      by_cases hx : x = obj
      · rw [hx, if_neg hnot, update_self, if_pos (by simp)]
      · rw [update_of_ne hx]
        simp [hx]

theorem moveBoth_flags {a b c : TimelineArray} (lock : ℕ → Bool) (ha : a.Agrees) (hb : b.Agrees) (hc : c.Agrees)
    (hone : ∀ x, a.array.count x + b.array.count x + c.array.count x ≤ 1) :
    let m := moveAll a.array.length a c lock
    let m' := moveAll b.array.length b m.2.1 m.2.2
    m.1.array = [] ∧ m.1.dirty = a.dirty ∧
      (m'.2.1.dirty = true ∨ a.array = [] ∧ b.array = [] ∧ m'.2.1 = c ∧ m'.2.2 = lock) ∧
      ∀ x, m'.2.2 x = if x ∈ a.array ∨ x ∈ b.array then false else lock x := by
  intro m m'
  have hones : ∀ x, a.array.count x + c.array.count x ≤ 1 := fun x => by
    have hx := hone x
    omega
  obtain ⟨hnil, -, hto, hcount⟩ := moveAll_spec a.array.length a c lock rfl ha hc hones
  obtain ⟨hfrom, hpushed, hlock⟩ := moveAll_flags a.array.length a c lock rfl ha hc hones
  obtain ⟨-, hpushed', hlock'⟩ := moveAll_flags b.array.length b m.2.1 m.2.2 rfl hb hto fun x => by
    have hx := hone x
    have hc := hcount x
    simp only [m] at hc ⊢
    omega
  refine ⟨hnil, hfrom, ?_, fun x => ?_⟩
  · rcases hpushed' with hdirty | ⟨hb', hsame', hlocks'⟩
    · exact .inl hdirty
    · rcases hpushed with hdirty | ⟨ha', hsame, hlocks⟩
      · exact .inl ((congrArg dirty hsame').trans hdirty)
      · exact .inr ⟨ha', hb', hsame'.trans hsame, hlocks'.trans hlocks⟩
  · rw [hlock' x, hlock x]
    by_cases hxb : x ∈ b.array
    · rw [if_pos hxb, if_pos (.inr hxb)]
    · by_cases hxa : x ∈ a.array
      · rw [if_neg hxb, if_pos hxa, if_pos (.inl hxa)]
      · rw [if_neg hxb, if_neg hxa, if_neg (not_or.mpr ⟨hxa, hxb⟩)]

end TimelineArray

namespace Timeline

/-- The objects of a queue in their order, without the one that `SortAssistant` places. -/
def others (s : Timeline) (q : TimelineArray) : List ℕ :=
  q.array.filter fun obj => decide (s.assitObjects 1 ≠ some obj)

/-- No object comes after one that it is compared before. -/
def Ordered (cfg : TimelineConfig) (s : Timeline) (q : TimelineArray) : Prop :=
  (s.others q).Pairwise fun x y => s.before cfg y x = false

/-- The queues are in the order of the comparison, and the next object to act, if it is not the assistant, is the maximal
one. -/
structure InOrder (cfg : TimelineConfig) (s : Timeline) : Prop where
  current : s.Ordered cfg s.currentQueue
  next : s.Ordered cfg s.nextQueue
  acts : ∀ obj, s.currentQueue.peek = some obj → s.assitObjects 1 ≠ some obj →
    ∀ x ∈ s.others s.currentQueue, s.before cfg obj x = false

/-! ## The condition -/

def InPlace (cfg : TimelineConfig) (s : Timeline) (obj : ℕ) (q : TimelineArray) : Prop :=
  obj ∈ s.others q → (∀ x ∈ (s.others q).takeWhile (fun x => decide (x ≠ obj)), s.before cfg obj x = false) ∧
    ∀ y ∈ ((s.others q).dropWhile fun x => decide (x ≠ obj)).tail, s.before cfg y obj = false

/-- An assignment of speed or position leaves the object in its place, and `Assist` brings the first assistant of a side,
which is not in the timeline. -/
def KeepsPlace (cfg : TimelineConfig) (s : Timeline) : TimelineAct → Prop
  | .call (.setSpeed obj speed) =>
    InPlace cfg { s with speed := update s.speed obj speed } obj s.currentQueue ∧
      InPlace cfg { s with speed := update s.speed obj speed } obj s.nextQueue
  | .call (.setPos obj pos) =>
    InPlace cfg { s with pos := update s.pos obj pos } obj s.currentQueue ∧
      InPlace cfg { s with pos := update s.pos obj pos } obj s.nextQueue
  | .call (.assist obj) => s.timeline obj = false ∧ s.assitObjects (cfg.unit obj).side = none
  | _ => True

instance (cfg : TimelineConfig) (s : Timeline) (obj : ℕ) (q : TimelineArray) : Decidable (s.InPlace cfg obj q) :=
  inferInstanceAs (Decidable (_ → _ ∧ _))

instance (cfg : TimelineConfig) (s : Timeline) (act : TimelineAct) : Decidable (s.KeepsPlace cfg act) :=
  match act with
  | .call (.setSpeed _ _) | .call (.setPos _ _) => inferInstanceAs (Decidable (InPlace _ _ _ _ ∧ InPlace _ _ _ _))
  | .call (.assist obj) =>
    inferInstanceAs (Decidable (s.timeline obj = false ∧ s.assitObjects (cfg.unit obj).side = none))
  | .call (.add ..) | .call (.summon ..) | .call (.remove ..) | .call (.setForceWinner _) | .call (.unitSpeedChange _)
  | .call (.unitRelive _) | .call (.unitWait _) | .call .unitFinished | .call .enterDone | .call (.actionDone ..)
  | .call (.tick ..) | .next => .isTrue trivial

/-! ## Comparing -/

variable {cfg : TimelineConfig} {s s' : Timeline} {obj : ℕ} {q q' : TimelineArray}

def standing (s : Timeline) (obj : ℕ) : Bool × ℤ × ℕ := (s.lock obj, s.speed obj, s.pos obj)

theorem before_congr {x y : ℕ} (hx : s'.standing x = s.standing x) (hy : s'.standing y = s.standing y) :
    s'.before cfg y x = s.before cfg y x := by
  simp only [standing, Prod.mk.injEq] at hx hy
  unfold before
  rw [hx.1, hx.2.1, hx.2.2, hy.1, hy.2.1, hy.2.2]

theorem strictWeak_before (cfg : TimelineConfig) (s : Timeline) : StrictWeak (s.before cfg) :=
  strictWeak_of_rank cfg.workAsDefender fun x => ⟨s.lock x, (cfg.unit x).shareMode, s.speed x, (cfg.unit x).side, s.pos x⟩

theorem before_self (cfg : TimelineConfig) (s : Timeline) (x : ℕ) : s.before cfg x x = false := by
  by_contra h
  rw [not_eq_false] at h
  exact Bool.false_ne_true (((strictWeak_before cfg s).asymm x x h).symm.trans h)

theorem Ordered.sublist (h : s.Ordered cfg q) (hsub : q'.array.Sublist q.array)
    (hassist : s'.assitObjects 1 = s.assitObjects 1) (hkeys : ∀ x ∈ q'.array, s'.standing x = s.standing x) :
    s'.Ordered cfg q' := by
  unfold Ordered others at h ⊢
  rw [hassist]
  refine (h.sublist (hsub.filter _)).imp_of_mem fun {x y} hx hy hxy => ?_
  rw [before_congr (hkeys x (mem_filter.mp hx).1) (hkeys y (mem_filter.mp hy).1)]
  exact hxy

theorem sort_dirty (cfg : TimelineConfig) (s : Timeline) (q : TimelineArray) : (s.sort cfg q).dirty = false := by
  unfold sort TimelineArray.arranged
  split
  · exact TimelineArray.sortAssistant_dirty _ _ _
  · rename_i h
    exact eq_false_of_not_eq_true h

theorem sort_clean (h : q.dirty = false) : s.sort cfg q = q := by
  unfold sort TimelineArray.arranged
  rw [if_neg (by rw [h]; decide)]

theorem ordered_sort {table : SortingTable} (hcfg : cfg.tableSort = table.toTableSort) (h : q.dirty = true)
    (hassist : s'.assitObjects 1 = s.assitObjects 1) (hkeys : s'.standing = s.standing) :
    s'.Ordered cfg (s.sort cfg q) := by
  unfold Ordered others sort TimelineArray.arranged
  rw [hassist, if_pos h, TimelineArray.filter_sortAssistant]
  have hsorted := table.sorted (s.before cfg) q.array (strictWeak_before cfg s)
  rw [hcfg]
  refine (hsorted.sublist filter_sublist).imp fun {x y} hxy => ?_
  rw [before_congr (congrFun hkeys x) (congrFun hkeys y)]
  exact hxy

/-! ## The invariant -/

structure Sorted (cfg : TimelineConfig) (s : Timeline) : Prop where
  placed : s.Placed
  currentClean : s.currentQueue.dirty = false
  nextClean : s.nextQueue.dirty = false
  current : s.Ordered cfg s.currentQueue
  next : s.Ordered cfg s.nextQueue
  unlocked : ∀ x ∈ s.nextQueue.array, s.lock x = false

theorem nodup_others (hs : s.Placed) : (s.others s.currentQueue).Nodup ∧ (s.others s.nextQueue).Nodup := by
  constructor
  · refine Nodup.filter _ (nodup_iff_count_le_one.mpr fun x => ?_)
    have hone := hs.counts x
    omega
  · refine Nodup.filter _ (nodup_iff_count_le_one.mpr fun x => ?_)
    have hone := hs.counts x
    omega

theorem others_peek (hpeek : q.peek = some obj) (hobj : s.assitObjects 1 ≠ some obj) : ∃ l, s.others q = l ++ [obj] := by
  obtain ⟨l, hl⟩ := List.getLast?_eq_some_iff.mp hpeek
  refine ⟨l.filter fun obj => decide (s.assitObjects 1 ≠ some obj), ?_⟩
  rw [others, hl, filter_append, filter_cons, if_pos (decide_eq_true hobj), filter_nil]

theorem Sorted.inOrder (h : s.Sorted cfg) : s.InOrder cfg := by
  refine ⟨h.current, h.next, fun obj hpeek hobj x hx => ?_⟩
  obtain ⟨l, hothers⟩ := others_peek hpeek hobj
  have hpair := h.current
  unfold Ordered at hpair
  rw [hothers] at hpair hx
  rcases mem_append.mp hx with hx | hx
  · exact (pairwise_append.mp hpair).2.2 x hx obj mem_cons_self
  · rw [mem_singleton.mp hx]
    exact before_self cfg s obj

theorem Sorted.shrink (h : s.Sorted cfg) (hplaced : s'.Placed) (hassist : s'.assitObjects 1 = s.assitObjects 1)
    (hcurrent : s'.currentQueue.array.Sublist s.currentQueue.array ∧ s'.currentQueue.dirty = s.currentQueue.dirty)
    (hnext : s'.nextQueue.array.Sublist s.nextQueue.array ∧ s'.nextQueue.dirty = s.nextQueue.dirty)
    (hkeys : ∀ x, x ∈ s'.currentQueue.array ∨ x ∈ s'.nextQueue.array → s'.standing x = s.standing x) : s'.Sorted cfg where
  placed := hplaced
  currentClean := hcurrent.2.trans h.currentClean
  nextClean := hnext.2.trans h.nextClean
  current := h.current.sublist hcurrent.1 hassist fun x hx => hkeys x (.inl hx)
  next := h.next.sublist hnext.1 hassist fun x hx => hkeys x (.inr hx)
  unlocked := by
    intro x hx
    have hkey := hkeys x (.inr hx)
    simp only [standing, Prod.mk.injEq] at hkey
    rw [hkey.1]
    exact h.unlocked x (hnext.1.subset hx)

def ranking (s : Timeline) : TimelineArray × TimelineArray × (ℕ → Bool) × (ℕ → ℤ) × (ℕ → ℕ) × Option ℕ :=
  (s.currentQueue, s.nextQueue, s.lock, s.speed, s.pos, s.assitObjects 1)

theorem Sorted.of_ranking (h : s.Sorted cfg) (hplaced : s'.Placed) (hranking : s'.ranking = s.ranking) : s'.Sorted cfg := by
  simp only [ranking, Prod.mk.injEq] at hranking
  obtain ⟨hc, hn, hl, hs, hp, ha⟩ := hranking
  refine h.shrink hplaced ha (by rw [hc]; exact ⟨.refl _, rfl⟩) (by rw [hn]; exact ⟨.refl _, rfl⟩) fun x _ => ?_
  rw [standing, standing, hl, hs, hp]

theorem Sorted.quiet (h : s.Sorted cfg) (hqueues : s'.queues = s.queues) (hranking : s'.ranking = s.ranking) :
    s'.Sorted cfg := h.of_ranking (h.placed.of_queues hqueues) hranking

/-! ## The operations -/

theorem Placed.not_mem (hs : s.Placed) (h : s.timeline obj = false) :
    obj ∉ s.currentQueue.array ∧ obj ∉ s.nextQueue.array := by
  have hzero := hs.absent h
  simp only [Timeline.located, Nat.add_eq_zero_iff, count_eq_zero] at hzero
  exact ⟨hzero.1.1, hzero.2⟩

theorem standing_of_lock {x : ℕ} {locked : Bool} (hlock : s'.lock = update s.lock obj locked)
    (hrest : s'.speed = s.speed ∧ s'.pos = s.pos) (hx : x ≠ obj) : s'.standing x = s.standing x := by
  rw [standing, standing, hlock, hrest.1, hrest.2, update_of_ne hx]

section
variable {table : SortingTable} (hcfg : cfg.tableSort = table.toTableSort)
include hcfg

theorem Sorted.enqueue (h : s.Sorted cfg) (hnew : s.timeline obj = false) (hlock : s.lock obj = false) :
    (s.enqueue cfg obj).Sorted cfg := by
  have hplaced : (s.enqueue cfg obj).Placed := (refines_enqueue cfg hnew h.placed).1
  obtain ⟨-, hnot⟩ := h.placed.not_mem hnew
  have hdirty : (s.nextQueue.push obj).dirty = true := by rw [TimelineArray.push_new h.placed.next hnot]
  refine ⟨hplaced, h.currentClean, sort_dirty _ _ _, h.current.sublist (.refl _) rfl fun _ _ => rfl,
    ordered_sort hcfg hdirty rfl rfl, fun x hx => ?_⟩
  have hx' := (TimelineArray.arranged_perm _ _ _ _ (h.placed.next.push obj)).mem_iff.mp hx
  rw [TimelineArray.push_new h.placed.next hnot] at hx'
  rcases mem_append.mp hx' with hx' | hx'
  · exact h.unlocked x hx'
  · rw [mem_singleton.mp hx']
    exact hlock

theorem Sorted.add (h : s.Sorted cfg) (wave : ℕ) : (s.add cfg obj wave).Sorted cfg := by
  unfold Timeline.add
  split
  · exact h.quiet rfl rfl
  · split
    · exact h.quiet rfl rfl
    · rename_i hadded
      have hnew : s.timeline obj = false := eq_false_of_not_eq_true hadded
      obtain ⟨hnotc, hnotn⟩ := h.placed.not_mem hnew
      have hreset : Sorted cfg { s with lock := update s.lock obj false, winner := none } := by
        refine h.shrink (Placed.of_queues (s := s) rfl h.placed) rfl ⟨.refl _, rfl⟩ ⟨.refl _, rfl⟩ fun x hx => ?_
        refine standing_of_lock rfl ⟨rfl, rfl⟩ ?_
        rintro rfl
        exact hx.elim hnotc hnotn
      split
      · exact h.quiet rfl rfl
      · simp only
        split
        · have hentered := hreset.enqueue hcfg hnew (update_self ..)
          unfold enterTimeline
          simp only
          split
          · exact hentered.quiet rfl rfl
          · exact hentered
        · exact hreset.quiet rfl rfl

theorem Sorted.pushed (h : s.Sorted cfg) (hnot : obj ∉ s.nextQueue.array) {s₁ : Timeline}
    (hassist : s'.assitObjects 1 = s₁.assitObjects 1) (hkeys : s'.standing = s₁.standing)
    (hlock : s'.lock = update s.lock obj false) :
    s'.Ordered cfg (s₁.sort cfg (s.nextQueue.push obj)) ∧
      ∀ x ∈ (s₁.sort cfg (s.nextQueue.push obj)).array, s'.lock x = false := by
  have hpush := TimelineArray.push_new h.placed.next hnot
  refine ⟨ordered_sort hcfg (by rw [hpush]) hassist hkeys, fun x hx => ?_⟩
  have hx' := (TimelineArray.arranged_perm _ _ _ _ (h.placed.next.push obj)).mem_iff.mp hx
  rw [hpush] at hx'
  rw [hlock]
  by_cases hxo : x = obj
  · rw [hxo, update_self]
  · rw [update_of_ne hxo]
    rcases mem_append.mp hx' with hx' | hx'
    · exact h.unlocked x hx'
    · exact absurd (mem_singleton.mp hx') hxo

theorem Sorted.finishCurrent (h : s.Sorted cfg) (hmem : obj ∈ s.currentQueue.array) :
    (s.finishCurrent cfg obj).Sorted cfg := by
  have hplaced : (s.finishCurrent cfg obj).Placed := (refines_finishCurrent cfg hmem h.placed).1
  obtain ⟨hone, -, hnot⟩ := h.placed.of_current hmem
  have hgone : obj ∉ (s.currentQueue.remove obj).array := TimelineArray.not_mem_remove hone.le
  have hclean : (s.currentQueue.remove obj).dirty = false := (TimelineArray.remove_dirty _ _).trans h.currentClean
  obtain ⟨hnext, hunlocked⟩ := @Sorted.pushed cfg s (s.finishCurrent cfg obj) obj table hcfg h hnot _ rfl rfl rfl
  refine ⟨hplaced, sort_dirty _ _ _, sort_dirty _ _ _, ?_, hnext, hunlocked⟩
  have hsame : (s.finishCurrent cfg obj).currentQueue = s.currentQueue.remove obj := sort_clean hclean
  rw [hsame]
  refine h.current.sublist (TimelineArray.remove_sublist _ _) rfl fun x hx => standing_of_lock rfl ⟨rfl, rfl⟩ ?_
  rintro rfl
  exact hgone hx

theorem Sorted.finishWaiting (h : s.Sorted cfg) (hmem : obj ∈ s.waitStack.array) :
    (s.finishWaiting cfg obj).Sorted cfg := by
  have hplaced : (s.finishWaiting cfg obj).Placed := (refines_finishWaiting cfg hmem h.placed).1
  obtain ⟨-, hgone, hnot⟩ := h.placed.of_wait hmem
  obtain ⟨hnext, hunlocked⟩ := @Sorted.pushed cfg s (s.finishWaiting cfg obj) obj table hcfg h hnot _ rfl rfl rfl
  refine ⟨hplaced, h.currentClean, sort_dirty _ _ _, ?_, hnext, hunlocked⟩
  refine h.current.sublist (.refl _) rfl fun x hx => standing_of_lock rfl ⟨rfl, rfl⟩ ?_
  rintro rfl
  exact hgone hx

theorem Sorted.unitFinished (h : s.Sorted cfg) (obj : ℕ) (rest : List TimelineInstr) :
    (s.unitFinished cfg obj rest).Sorted cfg := by
  unfold Timeline.unitFinished
  split
  · rename_i hmem
    have hdone := h.finishCurrent hcfg hmem
    exact hdone.quiet rfl rfl
  · split
    · rename_i hmem
      have hdone := h.finishWaiting hcfg hmem
      exact hdone.quiet rfl rfl
    · exact h.quiet rfl rfl

theorem Sorted.checkWinner (h : s.Sorted cfg) : (s.checkWinner cfg).Sorted cfg := by
  unfold Timeline.checkWinner
  split
  · exact h.quiet rfl rfl
  · exact h
  · rename_i winner _
    split
    · exact h
    · have hset : Sorted cfg { s with winner := some winner } := h.quiet rfl rfl
      simp only
      split
      · split
        · exact hset.unitFinished hcfg _ _
        · exact hset.quiet rfl rfl
      · exact hset.quiet rfl rfl

theorem Sorted.nextRound (h : s.Sorted cfg) : (s.nextRound cfg).Sorted cfg := by
  have hplaced : (s.nextRound cfg).Placed := (refines_nextRound cfg h.placed).1
  obtain ⟨hnil, hfrom, hpushed, -⟩ := TimelineArray.moveBoth_flags s.lock h.placed.next h.placed.wait h.placed.current
    fun x => by
      have hone := h.placed.counts x
      omega
  have hnext : (s.nextRound cfg).nextQueue.array = [] := hnil
  refine ⟨hplaced, sort_dirty _ _ _, hfrom.trans h.nextClean, ?_, ?_, fun x hx => ?_⟩
  · rcases hpushed with hdirty | ⟨-, -, hsame, hlock⟩
    · exact ordered_sort hcfg hdirty rfl rfl
    · have hclean : (s.nextRound cfg).currentQueue = s.currentQueue := by
        refine (sort_clean ?_).trans hsame
        exact (congrArg TimelineArray.dirty hsame).trans h.currentClean
      rw [hclean]
      refine h.current.sublist (.refl _) rfl fun x _ => ?_
      exact congrArg (fun l => (l x, s.speed x, s.pos x)) hlock
  · unfold Ordered others
    rw [hnext]
    exact .nil
  · rw [hnext] at hx
    cases hx

theorem Sorted.enterWave (h : s.Sorted cfg) : (s.enterWave cfg).Sorted cfg := by
  have hplaced : (s.enterWave cfg).Placed := (refines_enterWave cfg h.placed).1
  obtain ⟨hnil, hfrom, hpushed, hlocks⟩ := TimelineArray.moveBoth_flags s.lock h.placed.current h.placed.wait h.placed.next
    h.placed.once
  obtain ⟨-, -, hto, hcount⟩ := moveBoth_spec s.lock h.placed.current h.placed.wait h.placed.next h.placed.once
  have hcurrent : (s.enterWave cfg).currentQueue.array = [] := hnil
  refine ⟨hplaced, hfrom.trans h.currentClean, sort_dirty _ _ _, ?_, ?_, fun x hx => ?_⟩
  · unfold Ordered others
    rw [hcurrent]
    exact .nil
  · rcases hpushed with hdirty | ⟨-, -, hsame, hlock⟩
    · exact ordered_sort hcfg hdirty rfl rfl
    · have hclean : (s.enterWave cfg).nextQueue = s.nextQueue := by
        refine (sort_clean ?_).trans hsame
        exact (congrArg TimelineArray.dirty hsame).trans h.nextClean
      rw [hclean]
      refine h.next.sublist (.refl _) rfl fun x _ => ?_
      exact congrArg (fun l => (l x, s.speed x, s.pos x)) hlock
  · have hx' := count_pos_iff.mpr ((TimelineArray.arranged_perm _ _ _ _ hto).mem_iff.mp hx)
    rw [hcount x] at hx'
    refine (hlocks x).trans ?_
    split
    · rfl
    · rename_i hnot
      rw [← count_pos_iff, ← count_pos_iff] at hnot
      exact h.unlocked x (count_pos_iff.mp (by omega))

omit hcfg in
theorem before_locked {x : ℕ} (hxo : x ≠ obj) (hlock : s'.lock = update s.lock obj true)
    (hrest : s'.speed = s.speed ∧ s'.pos = s.pos) (h : s.before cfg obj x = false) : s'.before cfg obj x = false := by
  unfold before at h ⊢
  rw [hlock, update_self, update_of_ne hxo, hrest.1, hrest.2]
  cases hx : s.lock x with
  | false => rfl
  | true =>
    rw [hx] at h
    cases ho : s.lock obj with
    | false =>
      rw [ho] at h
      cases h
    | true =>
      rw [ho] at h
      exact h

omit hcfg in
theorem Sorted.locked (h : s.Sorted cfg) (hobj : s.nextObj = some obj) (hqueues : s'.queues = s.queues)
    (hassist : s'.assitObjects 1 = s.assitObjects 1) (hlock : s'.lock = update s.lock obj true)
    (hrest : s'.speed = s.speed ∧ s'.pos = s.pos) : s'.Sorted cfg := by
  have hplaced : s'.Placed := h.placed.of_queues hqueues
  simp only [queues, Prod.mk.injEq] at hqueues
  obtain ⟨hc, -, hn, -⟩ := hqueues
  have hstay : ∀ x, x ≠ obj → s'.standing x = s.standing x := fun x => standing_of_lock hlock hrest
  have hactive : obj ∉ s.nextQueue.array ∧ (s.currentQueue.peek = some obj ∨ obj ∉ s.currentQueue.array) := by
    unfold nextObj at hobj
    cases hpeek : s.currentQueue.peek with
    | some top =>
      rw [hpeek] at hobj
      obtain rfl := Option.some.inj hobj
      exact ⟨(h.placed.of_current (List.mem_of_getLast? hpeek)).2.2, .inl rfl⟩
    | none =>
      rw [hpeek] at hobj
      obtain ⟨-, hnotc, hnotn⟩ := h.placed.of_wait (List.mem_of_getLast? hobj)
      exact ⟨hnotn, .inr hnotc⟩
  obtain ⟨hnot, hpeek⟩ := hactive
  refine ⟨hplaced, hc ▸ h.currentClean, hn ▸ h.nextClean, ?_, ?_, fun x hx => ?_⟩
  · have hsame : s'.others s'.currentQueue = s.others s.currentQueue := by rw [others, others, hassist, hc]
    have hpair := h.current
    unfold Ordered at hpair ⊢
    rw [hsame]
    by_cases hmem : s.currentQueue.peek = some obj ∧ s.assitObjects 1 ≠ some obj
    · obtain ⟨l, hothers⟩ := others_peek hmem.1 hmem.2
      have hnodup := (nodup_others h.placed).1
      rw [hothers] at hpair hnodup ⊢
      obtain ⟨hl, -, hlast⟩ := pairwise_append.mp hpair
      have hne : ∀ x ∈ l, x ≠ obj := fun x hx => (nodup_append.mp hnodup).2.2 x hx obj mem_cons_self
      refine pairwise_append.mpr ⟨hl.imp_of_mem fun {x y} hx hy hxy => ?_, pairwise_singleton _ _, ?_⟩
      · rw [before_congr (hstay x (hne x hx)) (hstay y (hne y hy))]
        exact hxy
      · intro x hx y hy
        rw [mem_singleton.mp hy]
        exact before_locked (hne x hx) hlock hrest (hlast x hx obj mem_cons_self)
    · have hne : ∀ x ∈ s.others s.currentQueue, x ≠ obj := by
        rintro x hx rfl
        obtain ⟨hx, hrole⟩ := mem_filter.mp hx
        exact hmem ⟨hpeek.resolve_right (not_not_intro hx), of_decide_eq_true hrole⟩
      refine hpair.imp_of_mem fun {x y} hx hy hxy => ?_
      rw [before_congr (hstay x (hne x hx)) (hstay y (hne y hy))]
      exact hxy
  · rw [hn]
    refine h.next.sublist (.refl _) hassist fun x hx => hstay x ?_
    rintro rfl
    exact hnot hx
  · rw [hn] at hx
    have hne : x ≠ obj := by
      rintro rfl
      exact hnot hx
    rw [hlock, update_of_ne hne]
    exact h.unlocked x hx

omit hcfg in
theorem Sorted.turn (h : s.Sorted cfg) (hobj : s.nextObj = some obj) (renew ready : Bool) :
    (s.turn obj renew ready).Sorted cfg := by
  unfold Timeline.turn
  split
  · split
    · exact h.locked hobj rfl rfl rfl ⟨rfl, rfl⟩
    · exact h
  · simp only
    split
    · exact h.quiet rfl rfl
    · exact h.quiet rfl rfl

theorem Sorted.tickRest (h : s.Sorted cfg) (renew ready : Bool) : (s.tickRest cfg renew ready).Sorted cfg := by
  unfold Timeline.tickRest
  split
  · split
    · split
      · exact h.unitFinished hcfg _ _
      · exact h.quiet rfl rfl
    · exact h.quiet rfl rfl
  · split
    · have hcalled : Sorted cfg { s with callNextRoundOnNextTick := false } := h.quiet rfl rfl
      exact hcalled.nextRound hcfg
    · split
      · exact h.quiet rfl rfl
      · rename_i obj hobj
        exact h.turn hobj renew ready

theorem Sorted.nextWave (h : s.Sorted cfg) : (s.nextWave cfg).Sorted cfg := by
  unfold Timeline.nextWave
  split
  · exact h.quiet rfl rfl
  · exact h.quiet rfl rfl
  · exact h.enterWave hcfg

omit hcfg in
theorem Sorted.ite {c : Prop} [Decidable c] {t e : Timeline} (ht : t.Sorted cfg) (he : e.Sorted cfg) :
    (if c then t else e).Sorted cfg := by
  split
  · exact ht
  · exact he

omit hcfg in
theorem Sorted.prepared (h : s.Sorted cfg) (obj : ℕ) (ready : Bool) : (s.prepared obj ready).Sorted cfg := by
  unfold Timeline.prepared
  split
  · simp only
    split
    · exact h.quiet rfl rfl
    · split
      · exact h.quiet rfl rfl
      · split
        · exact h.quiet rfl rfl
        · exact h.quiet rfl rfl
  · exact h.quiet rfl rfl

theorem Sorted.exec (h : s.Sorted cfg) (i : TimelineInstr) : (s.exec cfg i).Sorted cfg := by
  cases i with
  | add obj wave => exact h.add hcfg wave
  | callback => exact h
  | ret => exact h
  | resetWinner => exact h.quiet rfl rfl
  | unitFinishedEnd => exact h.quiet rfl rfl
  | tickRest renew ready => exact h.tickRest hcfg renew ready
  | beforeActionEnd => exact h.quiet rfl rfl
  | prepared obj ready => exact h.prepared obj ready
  | checkWinner => exact h.checkWinner hcfg
  | finishRound => exact .ite (h.quiet rfl rfl) h
  | finishRoundEnd => exact .ite (h.quiet rfl rfl) (h.quiet rfl rfl)
  | finisheWave => exact .ite (h.quiet rfl rfl) h
  | callNextRound => exact h.quiet rfl rfl
  | callNextWave => exact h.quiet rfl rfl
  | nextWave => exact h.nextWave hcfg
  | waveAdded currentWave => exact .ite (h.quiet rfl rfl) (.ite (h.quiet rfl rfl) (h.quiet rfl rfl))
  | finished => exact .ite (h.quiet rfl rfl) h
  | finishedEnd => exact h.quiet rfl rfl
  | tooMuchAction => exact h.quiet rfl rfl

end

/-! ## The calls -/

theorem unitSpeedChange_same (h : s.Sorted cfg) (obj : ℕ) : s.unitSpeedChange cfg obj = s := by
  unfold unitSpeedChange
  split
  · rw [sort_clean h.currentClean]
  · split
    · rw [sort_clean h.nextClean]
    · rfl

theorem Sorted.without (h : s.Sorted cfg) (hplaced : s'.Placed) (hassist : s'.assitObjects 1 = s.assitObjects 1)
    (hlock : s'.lock = update s.lock obj false) (hrest : s'.speed = s.speed ∧ s'.pos = s.pos)
    (hcurrent : s'.currentQueue.array.Sublist s.currentQueue.array ∧ s'.currentQueue.dirty = s.currentQueue.dirty)
    (hnext : s'.nextQueue.array.Sublist s.nextQueue.array ∧ s'.nextQueue.dirty = s.nextQueue.dirty)
    (hgone : obj ∉ s'.currentQueue.array ∧ obj ∉ s'.nextQueue.array) : s'.Sorted cfg := by
  refine h.shrink hplaced hassist hcurrent hnext fun x hx => standing_of_lock hlock hrest ?_
  rintro rfl
  exact hx.elim hgone.1 hgone.2

theorem Sorted.unitWait (h : s.Sorted cfg) (obj : ℕ) : (s.unitWait cfg obj).Sorted cfg := by
  have hplaced : (s.unitWait cfg obj).Placed := (refines_unitWait cfg obj h.placed).1
  unfold Timeline.unitWait at hplaced ⊢
  simp only at hplaced ⊢
  split at hplaced
  · rename_i hfind
    rw [if_pos hfind]
    obtain ⟨hone, -, hnot⟩ := h.placed.of_current ((h.placed.current obj).mp hfind)
    split at hplaced
    · rename_i assistant _
      have hsub := TimelineArray.remove_sublist s.currentQueue assistant
      have hgone : obj ∉ ((s.currentQueue.remove assistant).remove obj).array :=
        TimelineArray.not_mem_remove ((hsub.count_le obj).trans hone.le)
      exact h.without hplaced rfl rfl ⟨rfl, rfl⟩ ⟨(TimelineArray.remove_sublist _ _).trans hsub,
        (TimelineArray.remove_dirty _ _).trans (TimelineArray.remove_dirty _ _)⟩ ⟨.refl _, rfl⟩ ⟨hgone, hnot⟩
    · have hgone : obj ∉ (s.currentQueue.remove obj).array := TimelineArray.not_mem_remove hone.le
      exact h.without hplaced rfl rfl ⟨rfl, rfl⟩ ⟨TimelineArray.remove_sublist _ _, TimelineArray.remove_dirty _ _⟩
        ⟨.refl _, rfl⟩ ⟨hgone, hnot⟩
  · rename_i hfind
    rw [if_neg hfind]
    refine h.shrink hplaced rfl ⟨.refl _, rfl⟩ ⟨.refl _, rfl⟩ fun x hx => ?_
    by_cases hxo : x = obj
    · -- waiting for its turn of the next round, it is not locked
      subst hxo
      have hmem : x ∈ s.nextQueue.array := hx.resolve_left fun hmem => hfind ((h.placed.current x).mpr hmem)
      change (update s.lock x false x, s.speed x, s.pos x) = s.standing x
      rw [update_self, standing, h.unlocked x hmem]
    · exact standing_of_lock rfl ⟨rfl, rfl⟩ hxo

theorem Sorted.leave (h : s.Sorted cfg) (obj : ℕ) (forceRemove : Bool) : (s.leave cfg obj forceRemove).Sorted cfg := by
  unfold Timeline.leave
  simp only
  split
  · exact h.quiet rfl rfl
  · exact h.quiet rfl rfl

theorem Sorted.remove (h : s.Sorted cfg) (obj : ℕ) (forceRemove : Bool) : (s.remove cfg obj forceRemove).Sorted cfg := by
  unfold Timeline.remove
  simp only
  split
  · rename_i hfind
    obtain ⟨hone, -, hnotn⟩ := h.placed.of_current ((h.placed.current obj).mp hfind)
    have hclean : (s.currentQueue.remove obj).dirty = false := (TimelineArray.remove_dirty _ _).trans h.currentClean
    have hsame : ((s.unlist obj).takeCurrent cfg obj).currentQueue = s.currentQueue.remove obj := sort_clean hclean
    refine Sorted.leave (h.without (refines_takeCurrent (s := s) cfg hfind h.placed).1 rfl rfl ⟨rfl, rfl⟩ ?_
      ⟨.refl _, rfl⟩ ?_) obj forceRemove
    · rw [hsame]
      exact ⟨TimelineArray.remove_sublist _ _, TimelineArray.remove_dirty _ _⟩
    · rw [hsame]
      exact ⟨TimelineArray.not_mem_remove hone.le, hnotn⟩
  · rename_i hcurrent
    have hnotc : obj ∉ s.currentQueue.array := fun hmem => hcurrent ((h.placed.current obj).mpr hmem)
    split
    · rename_i hfind
      obtain ⟨-, -, hnotn⟩ := h.placed.of_wait ((h.placed.wait obj).mp hfind)
      exact Sorted.leave (h.without (refines_takeWaiting (s := s) hfind h.placed).1 rfl rfl ⟨rfl, rfl⟩ ⟨.refl _, rfl⟩
        ⟨.refl _, rfl⟩ ⟨hnotc, hnotn⟩) obj forceRemove
    · rename_i hwait
      split
      · rename_i hfind
        have hclean : (s.nextQueue.remove obj).dirty = false := (TimelineArray.remove_dirty _ _).trans h.nextClean
        have hsame : ((s.unlist obj).takeNext cfg obj).nextQueue = s.nextQueue.remove obj := sort_clean hclean
        refine Sorted.leave (h.without (refines_takeNext (s := s) cfg hfind h.placed).1 rfl rfl ⟨rfl, rfl⟩ ⟨.refl _, rfl⟩
          ?_ ⟨hnotc, ?_⟩) obj forceRemove
        · rw [hsame]
          exact ⟨TimelineArray.remove_sublist _ _, TimelineArray.remove_dirty _ _⟩
        · rw [hsame]
          have hone := h.placed.counts obj
          exact TimelineArray.not_mem_remove (by omega)
      · rename_i hnext
        have hunlisted := (refines_unlist (s := s) (eq_false_of_not_eq_true hcurrent)
          (eq_false_of_not_eq_true hwait) (eq_false_of_not_eq_true hnext) h.placed).1
        have hout : Sorted cfg (s.unlist obj) := h.without hunlisted rfl rfl ⟨rfl, rfl⟩ ⟨.refl _, rfl⟩ ⟨.refl _, rfl⟩
          ⟨hnotc, fun hmem => hnext ((h.placed.next obj).mpr hmem)⟩
        exact hout.quiet rfl rfl

theorem split_at {l : List ℕ} (h : obj ∈ l) :
    l = l.takeWhile (fun x => decide (x ≠ obj)) ++ obj :: (l.dropWhile fun x => decide (x ≠ obj)).tail := by
  induction l with
  | nil => cases h
  | cons a l ih =>
    by_cases ha : a = obj
    · rw [ha, takeWhile_cons_of_neg (by simp), dropWhile_cons_of_neg (by simp)]
      rfl
    · have hmem : obj ∈ l := (mem_cons.mp h).resolve_left (Ne.symm ha)
      rw [takeWhile_cons_of_pos (by simpa using ha), dropWhile_cons_of_pos (by simpa using ha), cons_append,
        ← ih hmem]

theorem Ordered.assigned (h : s.Ordered cfg q) (hnodup : (s.others q).Nodup) (hassist : s'.assitObjects 1 = s.assitObjects 1)
    (hplace : s'.InPlace cfg obj q) (hkeys : ∀ x, x ≠ obj → s'.standing x = s.standing x) : s'.Ordered cfg q := by
  have hsame : s'.others q = s.others q := by rw [others, others, hassist]
  have hcongr : ∀ x y, x ≠ obj → y ≠ obj → s.before cfg y x = false → s'.before cfg y x = false := by
    intro x y hx hy hxy
    rw [before_congr (hkeys x hx) (hkeys y hy)]
    exact hxy
  unfold InPlace at hplace
  unfold Ordered at h ⊢
  rw [hsame] at hplace ⊢
  by_cases hmem : obj ∈ s.others q
  · obtain ⟨hbefore, hafter⟩ := hplace hmem
    have hsplit := split_at hmem
    generalize (s.others q).takeWhile (fun x => decide (x ≠ obj)) = xs at hsplit hbefore
    generalize ((s.others q).dropWhile fun x => decide (x ≠ obj)).tail = ys at hsplit hafter
    rw [hsplit] at h hnodup ⊢
    obtain ⟨hxs, hys, hxy⟩ := pairwise_append.mp h
    obtain ⟨hobj, hys⟩ := pairwise_cons.mp hys
    have hnot := nodup_cons.mp (nodup_middle.mp hnodup)
    have hnex : ∀ x ∈ xs, x ≠ obj := by
      rintro x hx rfl
      exact hnot.1 (mem_append_left _ hx)
    have hney : ∀ y ∈ ys, y ≠ obj := by
      rintro y hy rfl
      exact hnot.1 (mem_append_right _ hy)
    refine pairwise_append.mpr ⟨?_, pairwise_cons.mpr ⟨hafter, ?_⟩, fun x hx y hy => ?_⟩
    · exact hxs.imp_of_mem fun hx hy => hcongr _ _ (hnex _ hx) (hnex _ hy)
    · exact hys.imp_of_mem fun hx hy => hcongr _ _ (hney _ hx) (hney _ hy)
    · rcases mem_cons.mp hy with rfl | hy'
      · exact hbefore x hx
      · exact hcongr x y (hnex x hx) (hney y hy') (hxy x hx y hy)
  · exact h.imp_of_mem fun hx hy => hcongr _ _ (fun hxo => hmem (hxo ▸ hx)) fun hyo => hmem (hyo ▸ hy)

theorem Sorted.assigned (h : s.Sorted cfg) (hqueues : s'.queues = s.queues)
    (hassist : s'.assitObjects 1 = s.assitObjects 1) (hlock : s'.lock = s.lock)
    (hkeys : ∀ x, x ≠ obj → s'.standing x = s.standing x)
    (hplace : s'.InPlace cfg obj s.currentQueue ∧ s'.InPlace cfg obj s.nextQueue) : s'.Sorted cfg := by
  have hplaced : s'.Placed := h.placed.of_queues hqueues
  simp only [queues, Prod.mk.injEq] at hqueues
  obtain ⟨hc, -, hn, -⟩ := hqueues
  obtain ⟨hnodupc, hnodupn⟩ := nodup_others h.placed
  refine ⟨hplaced, hc ▸ h.currentClean, hn ▸ h.nextClean, ?_, ?_, ?_⟩
  · rw [hc]
    exact h.current.assigned hnodupc hassist hplace.1 hkeys
  · rw [hn]
    exact h.next.assigned hnodupn hassist hplace.2 hkeys
  · rw [hn, hlock]
    exact h.unlocked

theorem Sorted.assist (h : s.Sorted cfg) (hnew : s.timeline obj = false)
    (hfirst : s.assitObjects (cfg.unit obj).side = none) : (s.call cfg (.assist obj)).Sorted cfg := by
  obtain ⟨hnotc, hnotn⟩ := h.placed.not_mem hnew
  have hplaced : (s.call cfg (.assist obj)).Placed := (refines_call cfg (.assist obj) h.placed).1
  have hothers : ∀ q : TimelineArray, obj ∉ q.array → (s.call cfg (.assist obj)).others q = s.others q := by
    intro q hq
    refine filter_congr fun x hx => decide_eq_decide.mpr (not_congr ?_)
    change update s.assitObjects (cfg.unit obj).side (some obj) 1 = some x ↔ _
    by_cases hside : 1 = (cfg.unit obj).side
    · have hne : obj ≠ x := by
        rintro rfl
        exact hq hx
      rw [hside, update_self, hfirst]
      simp [hne]
    · rw [update_of_ne hside]
  refine ⟨hplaced, h.currentClean, h.nextClean, ?_, ?_, h.unlocked⟩
  · change ((s.call cfg (.assist obj)).others s.currentQueue).Pairwise _
    rw [hothers _ hnotc]
    exact h.current
  · change ((s.call cfg (.assist obj)).others s.nextQueue).Pairwise _
    rw [hothers _ hnotn]
    exact h.next

section
variable {table : SortingTable} (hcfg : cfg.tableSort = table.toTableSort)
include hcfg

theorem Sorted.deliver (h : s.Sorted cfg) : (s.deliver cfg).Sorted cfg := by
  unfold Timeline.deliver
  split
  · exact h
  · rename_i obj events _
    have hrest : Sorted cfg { s with events := events } := h.quiet rfl rfl
    exact hrest.unitFinished hcfg _ _

omit hcfg in
theorem Sorted.summon (h : s.Sorted cfg) (id pos : ℕ) (remove : Bool) (visit : List ℕ) :
    (s.summon cfg id pos remove visit).Sorted cfg := by
  unfold Timeline.summon
  split
  · exact h
  · simp only
    split
    · exact h.quiet rfl rfl
    · exact h.quiet rfl rfl

omit hcfg in
theorem Sorted.tickStart (h : s.Sorted cfg) (renew ready : Bool) : (s.tickStart renew ready).Sorted cfg := by
  unfold Timeline.tickStart
  refine .ite h (.ite (h.quiet rfl rfl) ?_)
  split
  · exact h.quiet rfl rfl
  · exact .ite (h.quiet rfl rfl) (h.quiet rfl rfl)

theorem Sorted.of_call (h : s.Sorted cfg) {c : TimelineCall} (hc : s.KeepsPlace cfg (.call c)) : (s.call cfg c).Sorted cfg := by
  cases c with
  | add obj wave => exact h.quiet rfl rfl
  | assist obj => exact h.assist hc.1 hc.2
  | summon id pos remove visit => exact h.summon id pos remove visit
  | remove obj forceRemove =>
    have hpushed : Sorted cfg (s.push [.ret]) := h.quiet rfl rfl
    exact hpushed.remove obj forceRemove
  | setForceWinner winner => exact h.quiet rfl rfl
  | setSpeed obj speed =>
    refine h.assigned rfl rfl rfl (fun x hx => ?_) hc
    exact congrArg (fun v => (s.lock x, v, s.pos x)) (update_of_ne hx _ _)
  | setPos obj pos =>
    refine h.assigned rfl rfl rfl (fun x hx => ?_) hc
    exact congrArg (fun v => (s.lock x, s.speed x, v)) (update_of_ne hx _ _)
  | unitSpeedChange obj =>
    change (s.unitSpeedChange cfg obj).Sorted cfg
    rw [unitSpeedChange_same h obj]
    exact h
  | unitRelive obj => exact .ite (h.quiet rfl rfl) h
  | unitWait obj => exact h.unitWait obj
  | unitFinished => exact h.deliver hcfg
  | enterDone => exact h.quiet rfl rfl
  | actionDone obj finished => exact h.quiet rfl rfl
  | tick renew ready => exact h.tickStart renew ready

theorem Sorted.step (h : s.Sorted cfg) {act : TimelineAct} (hact : s.KeepsPlace cfg act)
    (hstep : timelineStep cfg s act = .ok s') : s'.Sorted cfg := by
  obtain rfl | ⟨c, rfl, rfl⟩ | ⟨i, is, -, -, rfl⟩ := timelineStep_cases hstep
  · exact h
  · exact h.of_call hcfg hact
  · have hpopped : Sorted cfg { s with todo := is } := h.quiet rfl rfl
    exact hpopped.exec hcfg i

end

theorem sorted_new (cfg : TimelineConfig) (speed : ℕ → ℤ) (pos : ℕ → ℕ) : (timelineNew speed pos).Sorted cfg :=
  ⟨placed_new speed pos, rfl, rfl, .nil, .nil, nofun⟩

/-- In every run in which each assignment leaves the object in its place, the queues are in order in every state. -/
theorem order_kept {cfg : TimelineConfig} {table : SortingTable} (hcfg : cfg.tableSort = table.toTableSort)
    (speed : ℕ → ℤ) (pos : ℕ → ℕ) (acts : List TimelineAct)
    (h : Along (timelineStep cfg) (KeepsPlace cfg) (timelineNew speed pos) acts) :
    Throughout (timelineStep cfg) (InOrder cfg) (timelineNew speed pos) acts :=
  run_throughout (fun _ hs => hs.inOrder) (fun _ _ _ hs hact hstep => hs.step hcfg hact hstep) acts _
    (sorted_new cfg speed pos) h

theorem order_kept_duel :
    Throughout (timelineStep duelConfig) (InOrder duelConfig) (timelineNew (fun _ => 0) id)
      ([.call (.add 1 (some 0)), .next, .next, .call (.add 3 (some 0)), .next, .next, .call (.add 2 (some 0)), .next, .next,
        .call (.setSpeed 3 (-5)), .call (.unitSpeedChange 3), .call (.setSpeed 1 9), .call (.unitSpeedChange 1)] ++
        tickAct ++ tickAct) := by
  refine @order_kept duelConfig SortingTable.insertion rfl _ _ _ ?_
  decide +kernel

/-- Object 2 becomes the fastest, but stays behind object 1 when the event of its change has been delivered. -/
theorem order_lost : ∃ s, run (timelineStep duelConfig) (timelineNew (fun _ => 0) id)
      [.call (.add 1 (some 0)), .next, .next, .call (.add 2 (some 0)), .next, .next, .call (.setSpeed 2 100),
        .call (.unitSpeedChange 2)] = .ok s ∧
    s.others s.nextQueue = [2, 1] ∧ ¬ s.Ordered duelConfig s.nextQueue := by
  have hlost : (run (timelineStep duelConfig) (timelineNew (fun _ => 0) id)
      [.call (.add 1 (some 0)), .next, .next, .call (.add 2 (some 0)), .next, .next, .call (.setSpeed 2 100),
        .call (.unitSpeedChange 2)]).toOption.map
        (fun s => decide (s.others s.nextQueue = [2, 1]) && s.before duelConfig 1 2) = some true := by decide +kernel
  generalize run (timelineStep duelConfig) _ _ = r at hlost ⊢
  cases r with
  | error e => cases hlost
  | ok s =>
    obtain ⟨hothers, hbefore⟩ := (and_eq_true _ _).mp (Option.some.inj hlost)
    have hothers := of_decide_eq_true hothers
    refine ⟨s, rfl, hothers, fun h => ?_⟩
    unfold Ordered at h
    rw [hothers] at h
    exact Bool.false_ne_true (((pairwise_cons.mp h).1 1 mem_cons_self).symm.trans hbefore)

end Timeline

end CServer.Fight
