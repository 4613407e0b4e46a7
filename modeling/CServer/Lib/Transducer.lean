import Mathlib.Data.List.Basic

/-! # Machines that translate a stream

A machine reads one symbol after the other and writes some symbols for each. Cutting its input changes nothing if the
state is carried on, and a second machine undoes the first if it does so symbol by symbol, up to what is still pending.
-/
namespace CServer.Lib

variable {σ τ α β : Type}

/-- What is written, and the state at the end. -/
def translate (step : σ → α → List β × σ) : σ → List α → List β × σ
  | s, [] => ([], s)
  | s, x :: xs =>
    let (ys, s) := step s x
    let (zs, s) := translate step s xs
    (ys ++ zs, s)

section Translate
variable {step : σ → α → List β × σ} (s : σ)

@[simp] theorem translate_nil : translate step s [] = ([], s) := rfl

@[simp] theorem translate_cons (x : α) (xs : List α) : translate step s (x :: xs) =
    ((step s x).1 ++ (translate step (step s x).2 xs).1, (translate step (step s x).2 xs).2) := rfl

theorem translate_append (xs ys : List α) : translate step s (xs ++ ys) =
    ((translate step s xs).1 ++ (translate step (translate step s xs).2 ys).1,
      (translate step (translate step s xs).2 ys).2) := by
  induction xs generalizing s with
  | nil => rfl
  | cons x xs ih => simp [ih, List.append_assoc]

/-- The input may come in blocks. -/
theorem translate_blocks (blocks : List (List α)) :
    translate (translate step) s blocks = translate step s blocks.flatten := by
  induction blocks generalizing s with
  | nil => rfl
  | cons block blocks ih => rw [translate_cons, ih, List.flatten_cons, translate_append]

theorem translate_forall {P : β → Prop} (h : ∀ s x, ∀ y ∈ (step s x).1, P y) (xs : List α) :
    ∀ y ∈ (translate step s xs).1, P y := by
  induction xs generalizing s with
  | nil => simp
  | cons x xs ih =>
    intro y hy
    rcases List.mem_append.mp hy with hy | hy
    · exact h s x y hy
    · exact ih _ y hy

end Translate

/-- `R s t p`: when the one machine is in the state `s`, the other is in `t` and has yet to write `p`. -/
theorem translate_inverse {enc : σ → α → List β × σ} {dec : τ → β → List α × τ} {R : σ → τ → List α → Prop}
    (hstep : ∀ s t p x, R s t p → ∃ p', R (enc s x).2 (translate dec t (enc s x).1).2 p' ∧
      p ++ [x] = (translate dec t (enc s x).1).1 ++ p') (xs : List α) : ∀ s t p, R s t p →
    ∃ p', R (translate enc s xs).2 (translate dec t (translate enc s xs).1).2 p' ∧
      p ++ xs = (translate dec t (translate enc s xs).1).1 ++ p' := by
  induction xs with
  | nil =>
    intro s t p h
    exact ⟨p, h, List.append_nil p⟩
  | cons x xs ih =>
    intro s t p h
    obtain ⟨p₁, h₁, hout₁⟩ := hstep s t p x h
    obtain ⟨p₂, h₂, hout₂⟩ := ih _ _ p₁ h₁
    refine ⟨p₂, ?_, ?_⟩
    · rw [translate_cons, translate_append]
      exact h₂
    · rw [translate_cons, translate_append, List.append_assoc, ← hout₂, ← List.append_assoc, ← hout₁]
      simp

end CServer.Lib
