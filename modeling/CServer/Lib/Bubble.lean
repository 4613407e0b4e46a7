import Mathlib.Tactic

/-! # Moving an entry of an array forward

`bubble less top i` compares the entry at `i` with the one before it, exchanges the two where the other one is `less`, and
goes on one place further to the front until it gets there.
-/
namespace CServer.Lib
open Function

variable {α : Type} (less : α → α → Prop) [DecidableRel less]

def exchanged (top : ℕ → α) (i j : ℕ) : ℕ → α := update (update top j (top i)) i (top j)

def bubble (top : ℕ → α) : ℕ → ℕ → α
  | 0 => top
  | i + 1 => if less (top i) (top (i + 1)) then bubble (exchanged top i (i + 1)) i else bubble top i

theorem exchanged_eq (top : ℕ → α) (i j : ℕ) : exchanged top i j = top ∘ Equiv.swap i j := by
  funext k
  rw [exchanged, comp_apply]
  by_cases hi : k = i
  · rw [hi, update_self, Equiv.swap_apply_left]
  rw [update_of_ne hi]
  by_cases hj : k = j
  · rw [hj, update_self, Equiv.swap_apply_right]
  · rw [update_of_ne hj, Equiv.swap_apply_of_ne_of_ne hi hj]

theorem bubble_perm (top : ℕ → α) (i : ℕ) :
    ∃ e : Equiv.Perm ℕ, (∀ k, i < k → e k = k) ∧ bubble less top i = top ∘ e := by
  induction i generalizing top with
  | zero => exact ⟨Equiv.refl ℕ, fun _ _ => rfl, rfl⟩
  | succ i ih =>
    rw [bubble]
    split
    · obtain ⟨e, hfix, heq⟩ := ih (exchanged top i (i + 1))
      refine ⟨e.trans (Equiv.swap i (i + 1)), fun k hk => ?_, ?_⟩
      · rw [Equiv.trans_apply, hfix k (by omega), Equiv.swap_apply_of_ne_of_ne (by omega) (by omega)]
      · rw [heq, exchanged_eq]
        rfl
    · obtain ⟨e, hfix, heq⟩ := ih top
      exact ⟨e, fun k hk => hfix k (by omega), heq⟩

theorem perm_lt {e : Equiv.Perm ℕ} {i n : ℕ} (hfix : ∀ k, i < k → e k = k) (hi : i < n) {k : ℕ} : e k < n ↔ k < n := by
  by_cases hk : i < k
  · rw [hfix k hk]
  · by_cases he : i < e k
    · have := e.injective (hfix (e k) he)
      omega
    · omega

/-- Below `n` the array is sorted but for the entry at `i`, which nothing behind it has to pass. -/
structure SortedBut (less R : α → α → Prop) (top : ℕ → α) (i n : ℕ) : Prop where
  others : ∀ a b, a < b → b < n → a ≠ i → b ≠ i → R (top a) (top b)
  behind : ∀ b, i < b → b < n → R (top i) (top b)
  passes : ∀ a, a < i → less (top a) (top i) → R (top i) (top a)
  stays : ∀ a, a < i → ¬ less (top a) (top i) → R (top a) (top i)

variable {less} {R : α → α → Prop}

theorem bubble_sorted (htrans : ∀ x y z, R x y → R y z → R x z) (hless : ∀ x y, R x y → ¬ less x y) {top : ℕ → α}
    {i n : ℕ} (hi : i < n) (h : SortedBut less R top i n) :
    ∀ a b, a < b → b < n → R (bubble less top i a) (bubble less top i b) := by
  induction i generalizing top with
  | zero =>
    intro a b hab hb
    rw [bubble]
    by_cases ha : a = 0
    · rw [ha]
      exact h.behind b (by omega) hb
    · exact h.others a b hab hb ha (by omega)
  | succ i ih =>
    rw [bubble]
    split
    case isTrue hswap =>
      have hat : exchanged top i (i + 1) i = top (i + 1) := update_self ..
      have hnext : exchanged top i (i + 1) (i + 1) = top i := by
        rw [exchanged, update_of_ne (by omega), update_self]
      have hother : ∀ k, k ≠ i → k ≠ i + 1 → exchanged top i (i + 1) k = top k := by
        intro k hk hk'
        rw [exchanged, update_of_ne hk, update_of_ne hk']
      refine ih (by omega) ⟨?_, ?_, ?_, ?_⟩
      · intro a b hab hb ha hb'
        by_cases hai : a = i + 1
        · rw [hai, hnext, hother b hb' (by omega)]
          exact h.others i b (by omega) hb (by omega) (by omega)
        rw [hother a ha hai]
        by_cases hbi : b = i + 1
        · rw [hbi, hnext]
          exact h.others a i (by omega) (by omega) hai (by omega)
        · rw [hother b hb' hbi]
          exact h.others a b hab hb hai hbi
      · intro b hib hb
        rw [hat]
        by_cases hbi : b = i + 1
        · rw [hbi, hnext]
          exact h.passes i (by omega) hswap
        · rw [hother b (by omega) hbi]
          exact h.behind b (by omega) hb
      · intro a ha
        rw [hat, hother a (by omega) (by omega)]
        exact h.passes a (by omega)
      · intro a ha
        rw [hat, hother a (by omega) (by omega)]
        exact h.stays a (by omega)
    case isFalse hkeep =>
      -- the entry has got to its place, and so has the one before it
      have hplace : R (top i) (top (i + 1)) := h.stays i (by omega) hkeep
      have hbefore : ∀ a, a < i → R (top a) (top i) := fun a ha =>
        h.others a i ha (by omega) (by omega) (by omega)
      refine ih (by omega) ⟨?_, ?_, fun a ha hl => absurd hl (hless _ _ (hbefore a ha)), fun a ha _ => hbefore a ha⟩
      · intro a b hab hb ha hb'
        by_cases hai : a = i + 1
        · rw [hai]
          exact h.behind b (by omega) hb
        by_cases hbi : b = i + 1
        · rw [hbi]
          exact htrans _ _ _ (hbefore a (by omega)) hplace
        · exact h.others a b hab hb hai hbi
      · intro b hib hb
        by_cases hbi : b = i + 1
        · rw [hbi]
          exact hplace
        · exact h.others i b hib hb (by omega) hbi

end CServer.Lib
