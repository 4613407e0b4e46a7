import Mathlib.Data.PEquiv
import Mathlib.Logic.Equiv.Basic
import Mathlib.Tactic

/-! # Rankings

A ranking gives some players a place each, no place to two of them: a partial bijection of players and
places. It changes in two ways, two places are exchanged or a newcomer takes a free one, and
both change the map of the players and the map of the places by updates at the points concerned.
-/
namespace CServer.Lib

open Function

variable {α β : Type} [DecidableEq β]

/-! ## Exchanges -/

def exchange (L : α ≃. β) (b c : β) : α ≃. β := L.trans (Equiv.swap b c).toPEquiv

theorem exchange_eq (L : α ≃. β) (b c : β) (x : α) : exchange L b c x = (L x).map (Equiv.swap b c) := by
  change (L x).bind (Equiv.swap b c).toPEquiv = _
  cases L x with
  | none => rfl
  | some d => simp [Equiv.toPEquiv_apply]

theorem exchange_symm_eq (L : α ≃. β) (b c y : β) : (exchange L b c).symm y = L.symm (Equiv.swap b c y) := by
  have h : (exchange L b c).symm = (Equiv.swap b c).symm.toPEquiv.trans L.symm := by
    rw [exchange, PEquiv.symm_trans_rev, ← Equiv.toPEquiv_symm]
  rw [h, Equiv.symm_swap]
  change ((Equiv.swap b c).toPEquiv y).bind L.symm = _
  rw [Equiv.toPEquiv_apply]
  rfl

theorem exchange_symm {L : α ≃. β} {a a' : α} {b c : β} (ha : L a = some b) (ha' : L a' = some c) :
    ((exchange L b c).symm : β → Option α) = update (update L.symm b (some a')) c (some a) := by
  have hb : L.symm b = some a := L.eq_some_iff.mpr ha
  have hc : L.symm c = some a' := L.eq_some_iff.mpr ha'
  funext y
  rw [exchange_symm_eq]
  by_cases hyc : y = c
  · subst hyc
    rw [update_self, Equiv.swap_apply_right, hb]
  · rw [update_of_ne hyc]
    by_cases hyb : y = b
    · subst hyb
      rw [update_self, Equiv.swap_apply_left, hc]
    · rw [update_of_ne hyb, Equiv.swap_apply_of_ne_of_ne hyb hyc]

theorem exchange_taken {L : α ≃. β} {a a' : α} {b c : β} (ha : L a = some b) (ha' : L a' = some c) {y : β}
    (hy : (L.symm y).isSome) : ((exchange L b c).symm y).isSome := by
  rw [exchange_symm ha ha']
  by_cases hyc : y = c
  · subst hyc
    rw [update_self]
    rfl
  · rw [update_of_ne hyc]
    by_cases hyb : y = b
    · subst hyb
      rw [update_self]
      rfl
    · rw [update_of_ne hyb]
      exact hy

variable [DecidableEq α]

theorem exchange_apply {L : α ≃. β} {a a' : α} {b c : β} (ha : L a = some b) (ha' : L a' = some c) :
    (exchange L b c : α → Option β) = update (update L a (some c)) a' (some b) := by
  funext x
  rw [exchange_eq]
  by_cases hx' : x = a'
  · subst hx'
    rw [update_self, ha', Option.map_some, Equiv.swap_apply_right]
  · rw [update_of_ne hx']
    by_cases hx : x = a
    · subst hx
      rw [update_self, ha, Option.map_some, Equiv.swap_apply_left]
    · rw [update_of_ne hx]
      cases hd : L x with
      | none => rfl
      | some d =>
        have hdb : d ≠ b := fun h => hx (L.inj hd (by rw [h]; exact ha))
        have hdc : d ≠ c := fun h => hx' (L.inj hd (by rw [h]; exact ha'))
        rw [Option.map_some, Equiv.swap_apply_of_ne_of_ne hdb hdc]

def enter (L : α ≃. β) (a : α) (b : β) (ha : L a = none) (hb : L.symm b = none) : α ≃. β where
  toFun := update L a (some b)
  invFun := update L.symm b (some a)
  inv x y := by
    by_cases hx : x = a
    · subst hx
      by_cases hy : y = b
      · simp [hy]
      · have hxy : L.symm y ≠ some x := by
          intro h
          rw [L.eq_some_iff, ha] at h
          exact nomatch h
        simpa [hy, Ne.symm hy] using hxy
    · by_cases hy : y = b
      · subst hy
        have hxy : L x ≠ some y := by
          intro h
          rw [← L.eq_some_iff, hb] at h
          exact nomatch h
        simpa [hx, Ne.symm hx] using hxy
      · simpa [hx, hy] using L.eq_some_iff

end CServer.Lib
