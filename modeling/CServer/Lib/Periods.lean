import Mathlib.Tactic

/-! # Periods of a clock and truncating division

With a period `P` a time is `q * P + r`, the `r`-th second of period `q`. Division that truncates towards zero counts
the periods right from zero on, and one too many within a period before it.
-/
namespace CServer.Lib

variable {P q q' r r' : ℤ}

theorem lt_iff_periods (hr : 0 ≤ r) (hP : r < P) (hr' : 0 ≤ r') (hP' : r' < P) :
    q * P + r < q' * P + r' ↔ q < q' ∨ q = q' ∧ r < r' := by
  obtain hlt | rfl | hgt := lt_trichotomy q q'
  · have hmul : (q + 1) * P ≤ q' * P := Int.mul_le_mul_of_nonneg_right hlt (by omega)
    rw [Int.add_mul, Int.one_mul] at hmul
    constructor
    · exact fun _ => .inl hlt
    · omega
  · constructor
    · exact fun h => .inr ⟨rfl, by omega⟩
    · omega
  · have hmul : (q' + 1) * P ≤ q * P := Int.mul_le_mul_of_nonneg_right hgt (by omega)
    rw [Int.add_mul, Int.one_mul] at hmul
    constructor <;> omega

theorem le_iff_periods (hr : 0 ≤ r) (hP : r < P) (hr' : 0 ≤ r') (hP' : r' < P) :
    q * P + r ≤ q' * P + r' ↔ q < q' ∨ q = q' ∧ r ≤ r' := by
  have h : q' * P + r' < q * P + r ↔ _ := lt_iff_periods hr' hP' hr hP
  constructor
  · intro hle
    have hnot := h.not.mp hle.not_gt
    omega
  · intro hlex
    exact not_lt.mp (h.not.mpr (by omega))

theorem eq_iff_periods (hr : 0 ≤ r) (hP : r < P) (hr' : 0 ≤ r') (hP' : r' < P) :
    q * P + r = q' * P + r' ↔ q = q' ∧ r = r' := by
  have hle : q * P + r ≤ q' * P + r' ↔ _ := le_iff_periods hr hP hr' hP'
  have hge : q' * P + r' ≤ q * P + r ↔ _ := le_iff_periods hr' hP' hr hP
  constructor
  · intro he
    have h := hle.mp he.le
    have h' := hge.mp he.ge
    omega
  · rintro ⟨rfl, rfl⟩
    rfl

theorem tdiv_periods (hr : 0 ≤ r) (hP : r < P) :
    (q * P + r).tdiv P = q + if 0 ≤ q ∨ r = 0 then 0 else 1 := by
  have hpos : 0 < P := by omega
  have hdiv : (q * P + r) / P = q := by
    rw [Int.add_comm, Int.add_mul_ediv_right r q hpos.ne', Int.ediv_eq_zero_of_lt hr hP, Int.zero_add]
  have hmod : P ∣ q * P + r ↔ r = 0 := by
    rw [Int.dvd_add_right (Int.dvd_mul_left q P)]
    constructor
    · exact fun hdvd => Int.eq_zero_of_dvd_of_nonneg_of_lt hr hP hdvd
    · rintro rfl
      exact Int.dvd_zero P
  have hnonneg : 0 ≤ q * P + r ↔ 0 ≤ q := by
    have h : 0 * P + 0 ≤ q * P + r ↔ _ := le_iff_periods (le_refl 0) hpos hr hP
    rw [Int.zero_mul, Int.zero_add] at h
    omega
  simp only [Int.tdiv_eq_ediv, hdiv, hmod, hnonneg, Int.sign_eq_one_of_pos hpos]

end CServer.Lib
