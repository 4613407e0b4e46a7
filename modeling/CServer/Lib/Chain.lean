import Mathlib.Tactic

/-! # Singly linked lists threaded through their nodes

`Chain next ref stop head xs`: starting from the pointer `head` and following `next`, the nodes
met are exactly `xs`, in this order, and the last pointer is `stop`. A pointer to node `x` is
`ref x`. A chain is finite by definition, so a head from which a chain exists is on no cycle.
-/
namespace CServer.Lib

variable {α β : Type}

def Chain (next : α → β) (ref : α → β) (stop : β) : β → List α → Prop
  | head, [] => head = stop
  | head, x :: xs => head = ref x ∧ Chain next ref stop (next x) xs

variable {next next' ref : α → β} {stop head : β} {xs ys : List α}

theorem Chain.congr (h : Chain next ref stop head xs) (hn : ∀ x ∈ xs, next' x = next x) :
    Chain next' ref stop head xs := by
  induction xs generalizing head with
  | nil => exact h
  | cons x xs ih =>
    obtain ⟨h1, h2⟩ := h
    refine ⟨h1, ?_⟩
    rw [hn x (List.mem_cons_self ..)]
    exact ih h2 (fun y hy => hn y (List.mem_cons_of_mem x hy))

theorem Chain.update [DecidableEq α] (h : Chain next ref stop head xs) {x : α} (hx : x ∉ xs) (q : β) :
    Chain (Function.update next x q) ref stop head xs := by
  apply h.congr
  intro y hy
  have hne : y ≠ x := by
    rintro rfl
    exact hx hy
  exact Function.update_of_ne hne q next

theorem Chain.push [DecidableEq α] (h : Chain next ref stop head xs) {x : α} (hx : x ∉ xs) :
    Chain (Function.update next x head) ref stop (ref x) (x :: xs) := by
  refine ⟨rfl, ?_⟩
  rw [Function.update_self]
  exact h.update hx head

theorem Chain.uncons (h : Chain next ref stop head xs) (hs : head ≠ stop) :
    ∃ x xs', xs = x :: xs' ∧ head = ref x ∧ Chain next ref stop (next x) xs' := by
  cases xs with
  | nil => exact absurd h hs
  | cons x xs => exact ⟨x, xs, rfl, h.1, h.2⟩

theorem Chain.head_mem (h : Chain next ref stop head xs) : head = stop ∨ ∃ y ∈ xs, head = ref y := by
  cases xs with
  | nil => exact .inl h
  | cons y xs => exact .inr ⟨y, by simp, h.1⟩

theorem Chain.next_mem (h : Chain next ref stop head xs) {x : α} (hx : x ∈ xs) :
    next x = stop ∨ ∃ y ∈ xs, next x = ref y := by
  induction xs generalizing head with
  | nil => simp at hx
  | cons z xs ih =>
    rcases List.mem_cons.mp hx with rfl | hx
    · rcases h.2.head_mem with h' | ⟨y, hy, h'⟩
      · exact .inl h'
      · exact .inr ⟨y, List.mem_cons_of_mem x hy, h'⟩
    · rcases ih h.2 hx with h' | ⟨y, hy, h'⟩
      · exact .inl h'
      · exact .inr ⟨y, List.mem_cons_of_mem z hy, h'⟩

theorem Chain.eq_nil_iff (hstop : ∀ x, ref x ≠ stop) (h : Chain next ref stop head xs) :
    head = stop ↔ xs = [] := by
  cases xs with
  | nil => exact ⟨fun _ => rfl, fun _ => h⟩
  | cons x xs => exact ⟨fun e => absurd (h.1.symm.trans e) (hstop x), fun e => by simp at e⟩

theorem Chain.append_iff : Chain next ref stop head (xs ++ ys) ↔
    ∃ mid, Chain next ref mid head xs ∧ Chain next ref stop mid ys := by
  induction xs generalizing head with
  | nil => exact ⟨fun h => ⟨head, rfl, h⟩, fun ⟨mid, h1, h2⟩ => by rw [List.nil_append, show head = mid from h1]; exact h2⟩
  | cons x xs ih =>
    constructor
    · rintro ⟨h1, h2⟩
      obtain ⟨mid, h3, h4⟩ := ih.mp h2
      exact ⟨mid, ⟨h1, h3⟩, h4⟩
    · rintro ⟨mid, ⟨h1, h3⟩, h4⟩
      exact ⟨h1, ih.mpr ⟨mid, h3, h4⟩⟩

end CServer.Lib
