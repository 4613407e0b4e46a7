import Mathlib.Tactic
import Mathlib.Data.Int.Log
import Mathlib.Data.Rat.Floor

/-! # Numbers rounded to doubles

A double has 53 significant binary digits. `nearest x` is the double nearest to `x`, the one with an even last digit if
there are two; bounds of the exponent are left out. `nearestInt` is the same for integers, which round to integers.
-/
namespace CServer.Lib.Double
open Int

/-! ## Nearest integers -/

def nearestEven (q : ℚ) : ℤ :=
  if q - ⌊q⌋ < 1 / 2 then ⌊q⌋ else if 1 / 2 < q - ⌊q⌋ then ⌊q⌋ + 1 else if Even ⌊q⌋ then ⌊q⌋ else ⌊q⌋ + 1

theorem nearestEven_le_iff (q : ℚ) (n : ℤ) : nearestEven q ≤ n ↔ q < n + 1 / 2 ∨ q = n + 1 / 2 ∧ Even n := by
  have hlo := Int.floor_le q
  have hhi := Int.lt_floor_add_one q
  rcases lt_trichotomy ⌊q⌋ n with hlt | heq | hgt
  · have hle : (⌊q⌋ : ℚ) + 1 ≤ n := by exact_mod_cast hlt
    refine iff_of_true ?_ (.inl (by linarith))
    unfold nearestEven
    split_ifs
    · omega
    · omega
    · omega
    · omega
  · unfold nearestEven
    rw [heq] at hlo hhi ⊢
    by_cases hbelow : q - n < 1 / 2
    · rw [if_pos hbelow]
      exact iff_of_true le_rfl (.inl (by linarith))
    · rw [if_neg hbelow]
      by_cases habove : 1 / 2 < q - n
      · rw [if_pos habove]
        refine iff_of_false (by omega) ?_
        rintro (h | ⟨h, -⟩)
        · linarith
        · linarith
      · rw [if_neg habove]
        have htie : q = n + 1 / 2 := by linarith
        by_cases heven : Even n
        · rw [if_pos heven]
          exact iff_of_true le_rfl (.inr ⟨htie, heven⟩)
        · rw [if_neg heven]
          refine iff_of_false (by omega) ?_
          rintro (h | ⟨-, h⟩)
          · linarith
          · exact heven h
  · have hle : (n : ℚ) + 1 ≤ ⌊q⌋ := by exact_mod_cast hgt
    refine iff_of_false ?_ ?_
    · unfold nearestEven
      split_ifs
      · omega
      · omega
      · omega
      · omega
    · rintro (h | ⟨h, -⟩)
      · linarith
      · linarith

@[simp] theorem nearestEven_intCast (n : ℤ) : nearestEven n = n := by
  unfold nearestEven
  rw [floor_intCast, sub_self, if_pos (by norm_num)]

theorem nearestEven_mono {p q : ℚ} (h : p ≤ q) : nearestEven p ≤ nearestEven q := by
  have hq := (nearestEven_le_iff q _).mp le_rfl
  refine (nearestEven_le_iff p _).mpr ?_
  rcases hq with hq | ⟨hq, heven⟩
  · exact .inl (h.trans_lt hq)
  · rcases h.lt_or_eq with hlt | rfl
    · exact .inl (hlt.trans_eq hq)
    · exact .inr ⟨hq, heven⟩

/-! ## Nearest doubles -/

def spacing (x : ℚ) : ℚ := 2 ^ (Int.log 2 |x| - 52)

def nearest (x : ℚ) : ℚ := nearestEven (x / spacing x) * spacing x

theorem spacing_pos (x : ℚ) : 0 < spacing x := zpow_pos (by norm_num) _

variable {x y : ℚ}

theorem spacing_mul (x : ℚ) (k : ℕ) : spacing x * 2 ^ (52 + k) = 2 ^ (Int.log 2 |x| + k) := by
  unfold spacing
  rw [← zpow_natCast, ← zpow_add₀ (by norm_num)]
  congr 1
  push_cast
  ring

theorem spacing_le (hx : 0 < x) : spacing x * 2 ^ 52 ≤ x := by
  have hmul := spacing_mul x 0
  rw [Nat.add_zero, Nat.cast_zero, add_zero] at hmul
  rw [hmul, abs_of_pos hx]
  exact zpow_log_le_self (by norm_num) hx

theorem lt_spacing (hx : 0 < x) : x < spacing x * 2 ^ 53 := by
  have hmul := spacing_mul x 1
  rw [Nat.cast_one] at hmul
  rw [hmul, abs_of_pos hx]
  exact lt_zpow_succ_log_self (by norm_num) x

theorem spacing_double (h : Int.log 2 |x| < Int.log 2 |y|) : spacing x * 2 ≤ spacing y := by
  unfold spacing
  rw [← zpow_add_one₀ (by norm_num)]
  exact zpow_le_zpow_right₀ (by norm_num) (by omega)

theorem le_nearest (hx : 0 < x) : spacing x * 2 ^ 52 ≤ nearest x := by
  have hs := spacing_pos x
  have hle : ((2 ^ 52 : ℤ) : ℚ) ≤ x / spacing x := by
    rw [le_div_iff₀ hs, mul_comm]
    exact_mod_cast spacing_le hx
  have hround := nearestEven_mono hle
  rw [nearestEven_intCast] at hround
  have hcast : (2 ^ 52 : ℚ) ≤ nearestEven (x / spacing x) := by exact_mod_cast hround
  rw [nearest, mul_comm]
  exact mul_le_mul_of_nonneg_right hcast hs.le

theorem nearest_le (hx : 0 < x) : nearest x ≤ spacing x * 2 ^ 53 := by
  have hs := spacing_pos x
  have hle : x / spacing x ≤ ((2 ^ 53 : ℤ) : ℚ) := by
    rw [div_le_iff₀ hs, mul_comm]
    exact_mod_cast (lt_spacing hx).le
  have hround := nearestEven_mono hle
  rw [nearestEven_intCast] at hround
  have hcast : (nearestEven (x / spacing x) : ℚ) ≤ 2 ^ 53 := by exact_mod_cast hround
  rw [nearest, mul_comm (spacing x)]
  exact mul_le_mul_of_nonneg_right hcast hs.le

theorem nearest_pos (hx : 0 < x) : 0 < nearest x :=
  (mul_pos (spacing_pos x) (by norm_num)).trans_le (le_nearest hx)

theorem nearest_nonpos (hx : x ≤ 0) : nearest x ≤ 0 := by
  have hs := spacing_pos x
  have hle : x / spacing x ≤ ((0 : ℤ) : ℚ) := by
    rw [div_le_iff₀ hs]
    simpa using hx
  have hround := nearestEven_mono hle
  rw [nearestEven_intCast] at hround
  exact mul_nonpos_of_nonpos_of_nonneg (by exact_mod_cast hround) hs.le

/-- What rounds to at most a given double: half of the distance to the next one is left, and the half itself if the last
digit is even. -/
theorem nearest_le_iff {m : ℤ} (hx : 0 < x) (hy : 0 < y) (hm : y = m * spacing y) :
    nearest x ≤ y ↔ x < y + spacing y / 2 ∨ x = y + spacing y / 2 ∧ Even m := by
  have hs := spacing_pos y
  have hlow := spacing_le hy
  have hhigh := lt_spacing hy
  rcases lt_trichotomy (Int.log 2 |x|) (Int.log 2 |y|) with hlt | heq | hgt
  · have hdouble := spacing_double hlt
    have hx' := lt_spacing hx
    have hround := nearest_le hx
    exact iff_of_true (by linarith) (.inl (by linarith))
  · have hsame : spacing x = spacing y := by rw [spacing, spacing, heq]
    have hdigits : nearest x ≤ y ↔ nearestEven (x / spacing y) ≤ m := by
      rw [nearest, hsame]
      nth_rewrite 3 [hm]
      rw [mul_le_mul_iff_of_pos_right hs]
      exact_mod_cast Iff.rfl
    rw [hdigits, nearestEven_le_iff, div_lt_iff₀ hs, div_eq_iff hs.ne']
    have hhalf : ((m : ℚ) + 1 / 2) * spacing y = y + spacing y / 2 := by
      nth_rewrite 2 [hm]
      ring
    rw [hhalf]
  · have hdouble := spacing_double hgt
    have hx' := spacing_le hx
    have hround := le_nearest hx
    -- the next double after `y` is not above the power of two below `x`
    have hnext : y + spacing y ≤ spacing y * 2 ^ 53 := by
      have hmul : (m : ℚ) * spacing y < 2 ^ 53 * spacing y := by
        rw [← hm, mul_comm]
        exact hhigh
      have hmlt : (m : ℚ) < ((2 ^ 53 : ℤ) : ℚ) := by exact_mod_cast lt_of_mul_lt_mul_right hmul hs.le
      have hmle : (m : ℚ) + 1 ≤ 2 ^ 53 := by exact_mod_cast Int.cast_lt.mp hmlt
      have hscaled := mul_le_mul_of_nonneg_right hmle hs.le
      rw [add_mul, one_mul, ← hm] at hscaled
      linarith
    refine iff_of_false (by linarith) ?_
    rintro (h | ⟨h, -⟩)
    · linarith
    · linarith

theorem nearest_of_digits {m : ℤ} (hm : x = m * spacing x) : nearest x = x := by
  have hdiv : x / spacing x = m := by rwa [div_eq_iff (spacing_pos x).ne']
  rw [nearest, hdiv, nearestEven_intCast]
  exact hm.symm

theorem spacing_eq {e : ℤ} (hlo : 2 ^ e ≤ x) (hhi : x < 2 ^ (e + 1)) : spacing x = 2 ^ (e - 52) := by
  have hx : 0 < x := (zpow_pos (by norm_num) e).trans_le hlo
  have hle := (zpow_le_iff_le_log (b := 2) (x := e) (by norm_num) hx).mp (by exact_mod_cast hlo)
  have hlt := (lt_zpow_iff_log_lt (b := 2) (x := e + 1) (by norm_num) hx).mp (by exact_mod_cast hhi)
  have hlog : Int.log 2 x = e := by omega
  rw [spacing, abs_of_pos hx, hlog]

theorem nearest_eq {e m : ℤ} (hlo : 2 ^ e ≤ x) (hhi : x < 2 ^ (e + 1)) (hm : |x / 2 ^ (e - 52) - m| < 1 / 2) :
    nearest x = m * 2 ^ (e - 52) := by
  obtain ⟨hbelow, habove⟩ := abs_lt.mp hm
  have hle : nearestEven (x / 2 ^ (e - 52)) ≤ m := (nearestEven_le_iff _ _).mpr (.inl (by linarith))
  have hnot : ¬ nearestEven (x / 2 ^ (e - 52)) ≤ m - 1 := by
    rw [nearestEven_le_iff]
    push_cast
    rintro (h | ⟨h, -⟩)
    · linarith
    · linarith
  have heq : nearestEven (x / 2 ^ (e - 52)) = m := by omega
  rw [nearest, spacing_eq hlo hhi, heq]

/-! ## Integers -/

def nearestInt (z : ℤ) : ℤ := ⌊nearest z⌋

theorem digits_intCast {z : ℤ} (h : |z| < 2 ^ 53) :
    ∃ m : ℤ, (z : ℚ) = m * spacing z ∧ (0 < z → (Even m ↔ z < 2 ^ 52 ∨ Even z)) := by
  by_cases hz : z = 0
  · exact ⟨0, by rw [hz]; simp, fun hpos => absurd hz hpos.ne'⟩
  have habs : (0 : ℚ) < |(z : ℚ)| := abs_pos.mpr (by exact_mod_cast hz)
  have hlog : Int.log 2 |(z : ℚ)| < 53 := by
    refine (lt_zpow_iff_log_lt (by norm_num) habs).mp ?_
    have hcast : |(z : ℚ)| < 2 ^ 53 := by exact_mod_cast h
    simpa using hcast
  obtain ⟨k, hk⟩ : ∃ k : ℕ, (k : ℤ) = 52 - Int.log 2 |(z : ℚ)| := ⟨(52 - Int.log 2 |(z : ℚ)|).toNat, by omega⟩
  have hspacing : spacing z = (2 ^ k)⁻¹ := by
    rw [spacing, ← zpow_natCast, ← zpow_neg, hk]
    congr 1
    ring
  refine ⟨z * 2 ^ k, ?_, fun hpos => ?_⟩
  · rw [hspacing]
    push_cast
    field_simp
  · have hlow : z < 2 ^ 52 ↔ k ≠ 0 := by
      have hiff := lt_zpow_iff_log_lt (b := 2) (x := 52) (by norm_num) habs
      have hcast : |(z : ℚ)| < ((2 : ℕ) : ℚ) ^ (52 : ℤ) ↔ z < 2 ^ 52 := by
        rw [abs_of_pos (by exact_mod_cast hpos)]
        norm_num
        exact_mod_cast Iff.rfl
      rw [← hcast, hiff]
      omega
    rw [hlow, Int.even_mul]
    by_cases hzero : k = 0
    · subst hzero
      simp
    · rw [Int.even_pow' hzero]
      simp [hzero]

theorem nearest_intCast {z : ℤ} (h : |z| < 2 ^ 53) : nearest z = z := by
  obtain ⟨m, hm, -⟩ := digits_intCast h
  exact nearest_of_digits hm

theorem nearestInt_of_lt {z : ℤ} (h : |z| < 2 ^ 53) : nearestInt z = z := by
  rw [nearestInt, nearest_intCast h, floor_intCast]

theorem nearestInt_cast (z : ℤ) : (nearestInt z : ℚ) = nearest z := by
  by_cases h : |z| < 2 ^ 53
  · rw [nearestInt_of_lt h, nearest_intCast h]
  · have hle : (2 : ℚ) ^ 52 ≤ |(z : ℚ)| := by
      have hcast : ((2 ^ 53 : ℤ) : ℚ) ≤ |(z : ℚ)| := by exact_mod_cast not_lt.mp h
      exact le_trans (by norm_num) hcast
    have hlog : 52 ≤ Int.log 2 |(z : ℚ)| := by
      refine (zpow_le_iff_le_log (by norm_num) (lt_of_lt_of_le (by norm_num) hle)).mp ?_
      simpa using hle
    obtain ⟨k, hk⟩ : ∃ k : ℕ, (k : ℤ) = Int.log 2 |(z : ℚ)| - 52 := ⟨(Int.log 2 |(z : ℚ)| - 52).toNat, by omega⟩
    have hint : nearest z = ((nearestEven (z / spacing z) * 2 ^ k : ℤ) : ℚ) := by
      rw [nearest, spacing, ← hk, zpow_natCast]
      push_cast
      rfl
    rw [nearestInt, hint, floor_intCast]

theorem nearestInt_nonpos {z : ℤ} (h : z ≤ 0) : nearestInt z ≤ 0 := by
  have hle : nearest (z : ℚ) ≤ 0 := nearest_nonpos (by exact_mod_cast h)
  rw [← nearestInt_cast] at hle
  exact_mod_cast hle

theorem nearestInt_pos {z : ℤ} (h : 0 < z) : 0 < nearestInt z := by
  have hpos : 0 < nearest (z : ℚ) := nearest_pos (by exact_mod_cast h)
  rw [← nearestInt_cast] at hpos
  exact_mod_cast hpos

theorem le_nearestInt {z : ℤ} (h : 2 ^ 53 ≤ z) : 2 ^ 53 ≤ nearestInt z := by
  have hcast : ((2 : ℕ) : ℚ) ^ (53 : ℤ) ≤ z := by
    have hz : ((2 ^ 53 : ℤ) : ℚ) ≤ z := Int.cast_le.mpr h
    exact le_trans (by norm_num) hz
  have hpos : (0 : ℚ) < z := lt_of_lt_of_le (by norm_num) hcast
  have hlog := (zpow_le_iff_le_log (b := 2) (by norm_num) hpos).mp hcast
  have hmul := spacing_mul (z : ℚ) 0
  rw [abs_of_pos hpos, Nat.cast_zero, add_zero, add_zero] at hmul
  have hpow : (2 : ℚ) ^ (53 : ℤ) ≤ 2 ^ Int.log 2 (z : ℚ) := zpow_le_zpow_right₀ (by norm_num) hlog
  have hle := le_nearest hpos
  rw [hmul, ← nearestInt_cast] at hle
  exact_mod_cast hpow.trans hle

/-- `x` is below the middle between `n` and the next double, or at it and the last digit of `n` is even. -/
def Near (x : ℚ) (n : ℤ) : Prop := x < n + spacing n / 2 ∨ x = n + spacing n / 2 ∧ (n < 2 ^ 52 ∨ Even n)

theorem nearest_le_intCast_iff {n : ℤ} (hx : 0 < x) (hn : 0 < n) (hlt : n < 2 ^ 53) : nearest x ≤ n ↔ Near x n := by
  obtain ⟨m, hm, heven⟩ := digits_intCast (abs_lt.mpr ⟨by omega, hlt⟩)
  rw [nearest_le_iff hx (by exact_mod_cast hn) hm, Near, heven hn]

theorem nearest_le_intCast {n : ℤ} (hn : 0 ≤ n) (hlt : n < 2 ^ 53) (hxn : x ≤ n) : nearest x ≤ n := by
  rcases le_or_gt x 0 with hx | hx
  · exact (nearest_nonpos hx).trans (by exact_mod_cast hn)
  · have hpos : (0 : ℚ) < n := hx.trans_le hxn
    refine (nearest_le_intCast_iff hx (by exact_mod_cast hpos) hlt).mpr (.inl ?_)
    have hs := spacing_pos (n : ℚ)
    linarith

theorem ceil_nearest_div {a b : ℤ} (ha : 0 < a) (hlt : a < 2 ^ 53) (hb : 0 < b) :
    ⌈nearest ((a : ℚ) / b)⌉ = ⌈(a : ℚ) / b⌉ := by
  have hbq : (0 : ℚ) < b := by exact_mod_cast hb
  have hquot : (0 : ℚ) < (a : ℚ) / b := div_pos (by exact_mod_cast ha) hbq
  obtain ⟨k, hk⟩ : ∃ k, k = ⌈(a : ℚ) / b⌉ := ⟨_, rfl⟩
  have hceil := Int.ceil_eq_iff.mp hk.symm
  have hkpos : 0 < k := by
    have hpos : (0 : ℚ) < k := hquot.trans_le hceil.2
    exact_mod_cast hpos
  have hbelow : (k - 1) * b < a := by
    have hmul := (lt_div_iff₀ hbq).mp hceil.1
    exact_mod_cast hmul
  have hsmall : k - 1 < 2 ^ 53 := by nlinarith
  rw [← hk, Int.ceil_eq_iff]
  refine ⟨?_, ?_⟩
  · by_cases hone : k = 1
    · rw [hone]
      simpa using nearest_pos hquot
    · have hpos : 0 < k - 1 := by omega
      have hfar : ¬ Near ((a : ℚ) / b) (k - 1) := by
        -- the quotient is a `b`-th above `k - 1`, which is more than half of the spacing
        have hspace := spacing_le (x := ((k - 1 : ℤ) : ℚ)) (by exact_mod_cast hpos)
        have hstep : ((k - 1 : ℤ) : ℚ) * b + 1 ≤ a := by exact_mod_cast hbelow
        have hfits : ((k - 1 : ℤ) : ℚ) * b < 2 ^ 53 := by exact_mod_cast hbelow.trans hlt
        intro hnear
        have hle : (a : ℚ) / b ≤ (k - 1 : ℤ) + spacing (k - 1 : ℤ) / 2 := by
          rcases hnear with h | ⟨h, -⟩
          · exact h.le
          · exact h.le
        have hmul := (div_le_iff₀ hbq).mp hle
        have hscaled := mul_le_mul_of_nonneg_right hspace hbq.le
        nlinarith
      have hnot := mt (nearest_le_intCast_iff hquot hpos hsmall).mp hfar
      have hgt := not_le.mp hnot
      push_cast at hgt
      exact hgt
  · refine nearest_le_intCast hkpos.le ?_ hceil.2
    nlinarith

end CServer.Lib.Double
