import Mathlib.Tactic

/-! # IEEE 754 binary64 patterns

A double is its 64-bit pattern. `ofNat` is the conversion of a natural number below `2 ^ 53`,
which is exact; `ofInt` converts any integer of 64 bits and is exact up to `2 ^ 53`. `value` is the number a finite pattern
stands for. `toBytes` and `ofBytes` are the pattern as eight bytes, most significant first.
-/
namespace CServer.Lib.Binary64
open Option Nat

/-- The number a pattern stands for; infinities and NaNs stand for none. -/
def value (d : UInt64) : Option ℚ :=
  let sign : ℚ := if d.toNat / 2 ^ 63 = 0 then 1 else -1
  let expo : ℕ := d.toNat / 2 ^ 52 % 2 ^ 11
  let frac : ℚ := (d.toNat % 2 ^ 52 : ℕ)
  if expo = 2047 then none
  else if expo = 0 then some (sign * frac / 2 ^ 1074)
  else some (sign * (2 ^ 52 + frac) * 2 ^ expo / 2 ^ 1075)

theorem value_normal {e f : ℕ} (he : e < 1023) (hf : f < 2 ^ 52) :
    value (UInt64.ofNat ((1023 + e) * 2 ^ 52 + f)) = some (((2 ^ 52 + f : ℕ) : ℚ) * 2 ^ e / 2 ^ 52) := by
  have hbits : (UInt64.ofNat ((1023 + e) * 2 ^ 52 + f)).toNat = (1023 + e) * 2 ^ 52 + f := by
    rw [UInt64.toNat_ofNat']
    omega
  have hsign : ((1023 + e) * 2 ^ 52 + f) / 2 ^ 63 = 0 := by omega
  have hexpo : ((1023 + e) * 2 ^ 52 + f) / 2 ^ 52 % 2 ^ 11 = 1023 + e := by omega
  have hfrac : ((1023 + e) * 2 ^ 52 + f) % 2 ^ 52 = f := by omega
  simp only [value, hbits, hsign, hexpo, hfrac, if_true, one_mul]
  rw [if_neg (by omega), if_neg (by omega), some_inj, pow_add]
  have hsplit : (2 : ℚ) ^ 1075 = 2 ^ 52 * 2 ^ 1023 := by rw [← pow_add]
  rw [hsplit]
  push_cast
  field_simp
  norm_num

def ofNat (n : ℕ) : UInt64 :=
  if n = 0 then 0
  else UInt64.ofNat ((1023 + Nat.log2 n) * 2 ^ 52 + (n - 2 ^ Nat.log2 n) * 2 ^ (52 - Nat.log2 n))

theorem value_ofNat {n : ℕ} (h : n < 2 ^ 53) : value (ofNat n) = some (n : ℚ) := by
  by_cases hz : n = 0
  · subst hz
    simp [value, ofNat]
  have hlo : 2 ^ Nat.log2 n ≤ n := log2_self_le hz
  have hhi : n < 2 ^ (Nat.log2 n + 1) := lt_log2_self
  rw [ofNat, if_neg hz]
  generalize Nat.log2 n = e at hlo hhi ⊢
  have he : e < 53 := by
    by_contra hge
    have := Nat.pow_le_pow_right (n := 2) (by decide) (Nat.not_lt.mp hge)
    omega
  have hmul : 2 ^ e * 2 ^ (52 - e) = 2 ^ 52 := by
    rw [← pow_add]
    congr 1
    omega
  have hfrac : (n - 2 ^ e) * 2 ^ (52 - e) < 2 ^ 52 := by
    rw [← hmul]
    have hpos : 0 < 2 ^ (52 - e) := Nat.pow_pos (by decide)
    exact Nat.mul_lt_mul_of_pos_right (by rw [pow_succ] at hhi; omega) hpos
  rw [value_normal (by omega) hfrac, some_inj]
  have hscaled : 2 ^ 52 + (n - 2 ^ e) * 2 ^ (52 - e) = n * 2 ^ (52 - e) := by
    rw [← hmul, ← Nat.add_mul, Nat.add_sub_cancel' hlo]
  rw [hscaled, ← cast_ofNat (R := ℚ), ← cast_pow, ← cast_mul, mul_assoc,
    mul_comm (2 ^ (52 - e)), hmul]
  push_cast
  field_simp
  norm_num

def nearest (n : ℕ) : UInt64 :=
  let e := Nat.log2 n
  if n < 2 ^ 53 then ofNat n
  else
    let q := n / 2 ^ (e - 52)
    let r := n % 2 ^ (e - 52)
    UInt64.ofNat ((1023 + e) * 2 ^ 52 + (q - 2 ^ 52) + if 2 ^ (e - 53) < r ∨ r = 2 ^ (e - 53) ∧ q % 2 = 1 then 1 else 0)

def ofInt (i : ℤ) : UInt64 := if i < 0 then UInt64.ofNat (2 ^ 63 + (nearest i.natAbs).toNat) else nearest i.natAbs

theorem value_nearest {n : ℕ} (h : n ≤ 2 ^ 53) : value (nearest n) = some (n : ℚ) := by
  rcases Nat.lt_or_eq_of_le h with hlt | rfl
  · rw [nearest, if_pos hlt]
    exact value_ofNat hlt
  · have hlog : Nat.log2 (2 ^ 53) = 53 := by decide +kernel
    have hpow : nearest (2 ^ 53) = UInt64.ofNat ((1023 + 53) * 2 ^ 52 + 0) := by
      simp only [nearest, hlog]
      rfl
    rw [hpow, value_normal (by decide) (by decide)]
    norm_num

theorem nearest_lt {n : ℕ} (h : n ≤ 2 ^ 53) : (nearest n).toNat < 2 ^ 63 := by
  by_contra hge
  have hn : 0 < n := by
    rcases Nat.eq_zero_or_pos n with rfl | hn
    · exact absurd (by decide : (nearest 0).toNat < 2 ^ 63) hge
    · exact hn
  have hsign : ¬ (nearest n).toNat / 2 ^ 63 = 0 := by omega
  have hvalue := value_nearest h
  have hpos : (0 : ℚ) < n := by exact_mod_cast hn
  simp only [value, hsign, if_false, neg_mul, one_mul, neg_div] at hvalue
  split_ifs at hvalue
  · rw [← some.inj hvalue] at hpos
    exact absurd hpos (not_lt.mpr (neg_nonpos.mpr (div_nonneg (cast_nonneg _) (pow_nonneg two_pos.le _))))
  · rw [← some.inj hvalue] at hpos
    refine absurd hpos (not_lt.mpr (neg_nonpos.mpr (div_nonneg ?_ (pow_nonneg two_pos.le _))))
    positivity

theorem value_neg {d : UInt64} (h : d.toNat < 2 ^ 63) : value (UInt64.ofNat (2 ^ 63 + d.toNat)) = (value d).map Neg.neg := by
  have hbits : (UInt64.ofNat (2 ^ 63 + d.toNat)).toNat = 2 ^ 63 + d.toNat := by
    rw [UInt64.toNat_ofNat']
    omega
  have hsign : ¬ (2 ^ 63 + d.toNat) / 2 ^ 63 = 0 := by omega
  have hsign' : d.toNat / 2 ^ 63 = 0 := by omega
  have hexpo : (2 ^ 63 + d.toNat) / 2 ^ 52 % 2 ^ 11 = d.toNat / 2 ^ 52 % 2 ^ 11 := by omega
  have hfrac : (2 ^ 63 + d.toNat) % 2 ^ 52 = d.toNat % 2 ^ 52 := by omega
  simp only [value, hbits, hsign, hsign', hexpo, hfrac, if_true, if_false]
  split_ifs
  · rfl
  · simp only [map_some, neg_mul, one_mul, neg_div]
  · simp only [map_some, neg_mul, one_mul, neg_div]

theorem value_ofInt {i : ℤ} (h : i.natAbs ≤ 2 ^ 53) : value (ofInt i) = some (i : ℚ) := by
  rw [ofInt]
  split_ifs with hneg
  · have habs : ((i.natAbs : ℕ) : ℚ) = -(i : ℚ) := by rw [cast_natAbs, abs_of_neg hneg, Int.cast_neg]
    rw [value_neg (nearest_lt h), value_nearest h, map_some, habs, neg_neg]
  · have habs : ((i.natAbs : ℕ) : ℚ) = (i : ℚ) := by rw [cast_natAbs, abs_of_nonneg (not_lt.mp hneg)]
    rw [value_nearest h, habs]

def toBytes (d : UInt64) : List UInt8 :=
  [UInt8.ofNat (d.toNat / 2 ^ 56), UInt8.ofNat (d.toNat / 2 ^ 48), UInt8.ofNat (d.toNat / 2 ^ 40),
    UInt8.ofNat (d.toNat / 2 ^ 32), UInt8.ofNat (d.toNat / 2 ^ 24), UInt8.ofNat (d.toNat / 2 ^ 16),
    UInt8.ofNat (d.toNat / 2 ^ 8), UInt8.ofNat d.toNat]

def ofBytes (bs : List UInt8) : UInt64 := UInt64.ofNat (bs.foldl (fun n b => n * 256 + b.toNat) 0)

@[simp] theorem toBytes_length (d : UInt64) : (toBytes d).length = 8 := rfl

theorem ofBytes_toBytes (d : UInt64) : ofBytes (toBytes d) = d := by
  have h := d.toNat_lt
  apply UInt64.toNat_inj.mp
  simp only [ofBytes, toBytes, List.foldl_cons, List.foldl_nil, UInt8.toNat_ofNat', UInt64.toNat_ofNat']
  omega

end CServer.Lib.Binary64
