import Mathlib.Data.List.Sort
import Mathlib.Tactic

/-! # `fight/battlefield/Timeline.lua`: arrays with an index of their objects

The queues of the timeline are Lua arrays of objects beside a table `objs` of the objects in them by
uuid; an object is its uuid here. The top of a queue is its last element.
-/
namespace CServer.Fight
open Function List

structure TimelineArray where
  array : List ℕ
  objs : ℕ → Bool
  dirty : Bool

/-- `table.sort`: some permutation of the array. It is not stable, so no more is said of it here. -/
structure TableSort where
  sort : (ℕ → ℕ → Bool) → List ℕ → List ℕ
  perm : ∀ f l, (sort f l).Perm l

def TableSort.insertion : TableSort where
  sort f l := l.insertionSort fun x y => f y x = false
  perm _ l := perm_insertionSort _ l

namespace TimelineArray

def new : TimelineArray := ⟨[], fun _ => false, false⟩

variable (q : TimelineArray)

def find (obj : ℕ) : Bool := q.objs obj

def remove (obj : ℕ) : TimelineArray :=
  if obj ∈ q.array then
    { q with array := (q.array.reverse.erase obj).reverse, objs := update q.objs obj false }
  else q

def push (obj : ℕ) : TimelineArray :=
  if q.objs obj then q
  else ⟨q.array ++ [obj], update q.objs obj true, true⟩

def peek : Option ℕ := q.array.getLast?

def pop : Option (ℕ × TimelineArray) :=
  match q.peek with
  | none => none
  | some obj => some (obj, { q with objs := update q.objs obj false }.remove obj)

/-- Pops everything from one array and pushes it on another, with `obj.lock = false`. -/
def moveAll : ℕ → TimelineArray → TimelineArray → (ℕ → Bool) → TimelineArray × TimelineArray × (ℕ → Bool)
  | 0, a, b, lock => (a, b, lock)
  | n + 1, a, b, lock =>
    match a.pop with
    | none => (a, b, lock)
    | some (obj, a) => moveAll n a (b.push obj) (update lock obj false)

def insertBefore (p : ℕ → Bool) (obj : ℕ) : List ℕ → List ℕ
  | [] => [obj]
  | x :: l => if p x then obj :: x :: l else x :: insertBefore p obj l

def sortAssistant (assistant : Option ℕ) (ofSide : ℕ → Bool) : TimelineArray :=
  match assistant with
  | none => q
  | some obj =>
    if q.find obj then
      let q := q.remove obj
      { q with array := insertBefore ofSide obj q.array, objs := update q.objs obj true }
    else q

/-- `Sort` of one queue: `order_queue_sort`, and then `SortAssistant`. -/
def arranged (table : TableSort) (before : ℕ → ℕ → Bool) (assistant : Option ℕ) (ofSide : ℕ → Bool)
    (q : TimelineArray) : TimelineArray :=
  if q.dirty then { q with array := table.sort before q.array, dirty := false }.sortAssistant assistant ofSide else q

/-! ## How often an object is in a queue -/

def Agrees : Prop := ∀ obj, q.objs obj = true ↔ obj ∈ q.array

theorem agrees_new : new.Agrees := fun obj => by simp [new]

variable {q a b : TimelineArray} {obj : ℕ}

theorem beq_one (obj x : ℕ) : (if obj == x then 1 else 0) = if x = obj then 1 else 0 := by
  by_cases h : x = obj
  · simp [h]
  · simp [h, Ne.symm h]

theorem count_remove (x : ℕ) : (q.remove obj).array.count x = q.array.count x - if x = obj then 1 else 0 := by
  unfold remove
  split
  · rw [count_reverse, count_erase, count_reverse, beq_one]
  · rename_i h
    by_cases hx : x = obj
    · rw [hx, count_eq_zero_of_not_mem h, Nat.zero_sub]
    · rw [if_neg hx, Nat.sub_zero]

theorem Agrees.remove (h : q.Agrees) (hone : q.array.count obj ≤ 1) : (q.remove obj).Agrees := by
  by_cases hmem : obj ∈ q.array
  · intro x
    have hobjs : (q.remove obj).objs = update q.objs obj false := by
      unfold TimelineArray.remove
      rw [if_pos hmem]
    rw [hobjs, ← count_pos_iff, count_remove]
    by_cases hx : x = obj
    · subst hx
      rw [update_self, if_pos rfl]
      simp only [Bool.false_eq_true, false_iff]
      omega
    · rw [update_of_ne hx, if_neg hx, Nat.sub_zero, count_pos_iff]
      exact h x
  · have : q.remove obj = q := by
      unfold TimelineArray.remove
      rw [if_neg hmem]
    rw [this]
    exact h

theorem push_new (h : q.Agrees) (hnew : obj ∉ q.array) :
    q.push obj = ⟨q.array ++ [obj], update q.objs obj true, true⟩ := by
  unfold push
  rw [if_neg fun ho => hnew ((h obj).mp ho)]

theorem count_push (h : q.Agrees) (hnew : obj ∉ q.array) (x : ℕ) :
    (q.push obj).array.count x = q.array.count x + if x = obj then 1 else 0 := by
  rw [push_new h hnew, count_append, count_singleton, beq_one]

theorem Agrees.push (h : q.Agrees) (obj : ℕ) : (q.push obj).Agrees := by
  unfold TimelineArray.push
  split
  · exact h
  · intro x
    rw [mem_append, mem_singleton]
    by_cases hx : x = obj
    · simp [hx]
    · simp only [update_of_ne hx]
      simp [hx, h x]

theorem remove_last (l : List ℕ) : ((l ++ [obj]).reverse.erase obj).reverse = l := by
  simp

theorem pop_some {l : List ℕ} (h : q.array = l ++ [obj]) :
    ∃ objs, q.pop = some (obj, ⟨l, objs, q.dirty⟩) ∧ objs = update q.objs obj false := by
  have hpeek : q.peek = some obj := by
    unfold peek
    rw [h, List.getLast?_concat]
  refine ⟨_, ?_, rfl⟩
  unfold pop
  rw [hpeek]
  simp only
  unfold remove
  simp only [h]
  rw [if_pos (by simp), remove_last, update_idem]

theorem Agrees.pop (h : a.Agrees) (hone : ∀ x, a.array.count x ≤ 1) (hne : a.array ≠ []) :
    ∃ obj a', a.pop = some (obj, a') ∧ a.array = a'.array ++ [obj] ∧ a'.Agrees ∧ a'.dirty = a.dirty ∧
      (∀ x, a.array.count x = a'.array.count x + if x = obj then 1 else 0) ∧ obj ∉ a'.array := by
  obtain ⟨l, obj, hl⟩ : ∃ l obj, a.array = l ++ [obj] := ⟨_, _, (dropLast_append_getLast hne).symm⟩
  obtain ⟨objs, hpop, hobjs⟩ := pop_some hl
  have hcount (x : ℕ) : a.array.count x = l.count x + if x = obj then 1 else 0 := by
    rw [hl, count_append, count_singleton, beq_one]
  have hnot : obj ∉ l := by
    have hobj := hone obj
    rw [hcount, if_pos rfl] at hobj
    exact count_eq_zero.mp (by omega)
  refine ⟨obj, ⟨l, objs, a.dirty⟩, hpop, hl, fun x => ?_, rfl, hcount, hnot⟩
  change objs x = true ↔ x ∈ l
  rw [hobjs]
  by_cases hx : x = obj
  · rw [hx, update_self]
    simp [hnot]
  · rw [update_of_ne hx, h x, hl]
    simp [hx]

theorem moveAll_spec (n : ℕ) : ∀ (a b : TimelineArray) (lock : ℕ → Bool), a.array.length = n → a.Agrees → b.Agrees →
    (∀ x, a.array.count x + b.array.count x ≤ 1) →
    let r := moveAll n a b lock
    r.1.array = [] ∧ r.1.Agrees ∧ r.2.1.Agrees ∧
      ∀ x, r.2.1.array.count x = a.array.count x + b.array.count x := by
  induction n with
  | zero =>
    intro a b lock hn ha hb _
    have hnil := eq_nil_of_length_eq_zero hn
    refine ⟨hnil, ha, hb, fun x => ?_⟩
    rw [hnil, count_nil, Nat.zero_add, moveAll]
  | succ n ih =>
    intro a b lock hn ha hb hone
    have hne : a.array ≠ [] := fun h => by simp [h] at hn
    obtain ⟨obj, a', hpop, hl, ha', -, hcount, -⟩ :=
      ha.pop (fun x => (Nat.le_add_right _ _).trans (hone x)) hne
    have hnotb : obj ∉ b.array := by
      have hobj := hone obj
      rw [hcount, if_pos rfl] at hobj
      exact count_eq_zero.mp (by omega)
    have hlen : a'.array.length = n := by
      rw [hl] at hn
      simpa using hn
    have hrest := ih a' (b.push obj) (update lock obj false) hlen ha' (hb.push obj)
      (fun x => by
        have h1 := hone x
        rw [hcount] at h1
        rw [count_push hb hnotb]
        omega)
    unfold moveAll
    rw [hpop]
    refine ⟨hrest.1, hrest.2.1, hrest.2.2.1, fun x => ?_⟩
    have h1 := hrest.2.2.2 x
    rw [count_push hb hnotb] at h1
    rw [hcount]
    simp only at h1 ⊢
    omega

/-! ## Sorting -/

theorem insertBefore_perm (p : ℕ → Bool) (obj : ℕ) (l : List ℕ) : (insertBefore p obj l).Perm (obj :: l) := by
  induction l with
  | nil => exact .refl _
  | cons x l ih =>
    unfold insertBefore
    split
    · exact .refl _
    · exact (ih.cons x).trans (.swap obj x l)

theorem sortAssistant_spec (h : q.Agrees) (assistant : Option ℕ) (ofSide : ℕ → Bool) :
    (q.sortAssistant assistant ofSide).array.Perm q.array ∧ (q.sortAssistant assistant ofSide).objs = q.objs := by
  unfold sortAssistant
  cases assistant with
  | none => exact ⟨.refl _, rfl⟩
  | some obj =>
    simp only
    split
    · rename_i hfind
      have hmem := (h obj).mp hfind
      have hremove : q.remove obj =
          { q with array := (q.array.reverse.erase obj).reverse, objs := update q.objs obj false } := by
        unfold remove
        rw [if_pos hmem]
      constructor
      · refine (insertBefore_perm ofSide obj _).trans ?_
        rw [hremove]
        refine ((reverse_perm _).cons obj).trans ?_
        exact ((perm_cons_erase (mem_reverse.mpr hmem)).symm).trans (reverse_perm _)
      · rw [hremove]
        simp only [update_idem]
        rw [← hfind]
        exact update_eq_self obj q.objs
    · exact ⟨.refl _, rfl⟩

section
variable (table : TableSort) (before : ℕ → ℕ → Bool) (assistant : Option ℕ) (ofSide : ℕ → Bool)

theorem arranged_spec (h : q.Agrees) : (q.arranged table before assistant ofSide).array.Perm q.array ∧
    (q.arranged table before assistant ofSide).objs = q.objs := by
  unfold arranged
  split
  · have hsorted : TimelineArray.Agrees { q with array := table.sort before q.array, dirty := false } :=
      fun obj => (h obj).trans (table.perm before q.array).mem_iff.symm
    obtain ⟨hperm, hobjs⟩ := sortAssistant_spec hsorted assistant ofSide
    exact ⟨hperm.trans (table.perm before q.array), hobjs⟩
  · exact ⟨.refl _, rfl⟩

theorem arranged_perm (h : q.Agrees) : (q.arranged table before assistant ofSide).array.Perm q.array :=
  (arranged_spec table before assistant ofSide h).1

theorem Agrees.arranged (h : q.Agrees) : (q.arranged table before assistant ofSide).Agrees := by
  obtain ⟨hperm, hobjs⟩ := arranged_spec table before assistant ofSide h
  intro obj
  rw [hobjs, hperm.mem_iff]
  exact h obj

end

end TimelineArray
end CServer.Fight
