import CServer.Lib.Keyed

/-! # A choice by weights

A ticket between 1 and the sum of the weights is handed along a list, and loses the weight of every entry it passes; the
entry that it does not get past is chosen. Weights may be negative.
-/
namespace CServer.Lib

variable {α : Type} (weight : α → ℤ)

def ticket : ℤ → List α → Option α
  | _, [] => none
  | r, a :: rest => if r - weight a ≤ 0 then some a else ticket (r - weight a) rest

variable {weight}

theorem ticket_some {r : ℤ} {l : List α} (hpos : 0 < r) (hle : r ≤ sumOf weight l) : ∃ a, ticket weight r l = some a := by
  induction l generalizing r with
  | nil =>
    rw [sumOf_nil] at hle
    omega
  | cons a rest ih =>
    rw [sumOf_cons] at hle
    rw [ticket]
    by_cases hstop : r - weight a ≤ 0
    · exact ⟨a, if_pos hstop⟩
    · rw [if_neg hstop]
      exact ih (by omega) (by omega)

theorem ticket_weight {r : ℤ} {l : List α} {a : α} (hpos : 0 < r) (h : ticket weight r l = some a) : 0 < weight a := by
  induction l generalizing r with
  | nil => cases h
  | cons b rest ih =>
    rw [ticket] at h
    split at h
    case isTrue hstop =>
      rw [← Option.some.inj h]
      omega
    case isFalse hstop => exact ih (by omega) h

theorem sumOf_filter_le {l : List α} (p : α → Bool) (hnonneg : ∀ a ∈ l, 0 ≤ weight a) :
    sumOf weight (l.filter p) ≤ sumOf weight l := by
  induction l with
  | nil => exact le_refl _
  | cons b rest ih =>
    obtain ⟨hb, hrest⟩ := List.forall_mem_cons.mp hnonneg
    rw [List.filter_cons, sumOf_cons]
    split
    · rw [sumOf_cons]
      exact Int.add_le_add_left (ih hrest) _
    · exact (ih hrest).trans (Int.le_add_of_nonneg_left hb)

theorem weights_zero {l : List α} (hnonneg : ∀ a ∈ l, 0 ≤ weight a) (hsum : sumOf weight l ≤ 0) : ∀ a ∈ l, weight a = 0 := by
  induction l with
  | nil => exact fun _ h => nomatch h
  | cons b rest ih =>
    obtain ⟨hb, hrest⟩ := List.forall_mem_cons.mp hnonneg
    have hsumRest : 0 ≤ sumOf weight rest := sumOf_nonneg hrest
    rw [sumOf_cons] at hsum
    exact List.forall_mem_cons.mpr ⟨by omega, ih hrest (by omega)⟩

end CServer.Lib
