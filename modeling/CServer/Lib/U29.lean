import Mathlib.Tactic

/-! # Variable-length 29-bit integers

A code has one to four bytes. The high bit of each of the first three says that another byte
follows; a fourth byte contributes all its eight bits. `IsU29` is the set of codes, redundant ones
included, and `u29` the shortest code of a number.
-/
namespace CServer.Lib

def u29Max : ℕ := 0x1FFFFFFF

def u29 (n : ℕ) : List UInt8 :=
  if n ≤ 0x7F then [UInt8.ofNat n]
  else if n ≤ 0x3FFF then [UInt8.ofNat (0x80 + n / 2 ^ 7), UInt8.ofNat (n % 2 ^ 7)]
  else if n ≤ 0x1FFFFF then
    [UInt8.ofNat (0x80 + n / 2 ^ 14), UInt8.ofNat (0x80 + n / 2 ^ 7 % 2 ^ 7), UInt8.ofNat (n % 2 ^ 7)]
  else
    [UInt8.ofNat (0x80 + n / 2 ^ 22), UInt8.ofNat (0x80 + n / 2 ^ 15 % 2 ^ 7),
      UInt8.ofNat (0x80 + n / 2 ^ 8 % 2 ^ 7), UInt8.ofNat (n % 2 ^ 8)]

inductive IsU29 : List UInt8 → ℕ → Prop
  | one {a : UInt8} (ha : a.toNat < 128) : IsU29 [a] a.toNat
  | two {a b : UInt8} (ha : 128 ≤ a.toNat) (hb : b.toNat < 128) :
      IsU29 [a, b] ((a.toNat - 128) * 2 ^ 7 + b.toNat)
  | three {a b c : UInt8} (ha : 128 ≤ a.toNat) (hb : 128 ≤ b.toNat) (hc : c.toNat < 128) :
      IsU29 [a, b, c] ((a.toNat - 128) * 2 ^ 14 + (b.toNat - 128) * 2 ^ 7 + c.toNat)
  | four {a b c d : UInt8} (ha : 128 ≤ a.toNat) (hb : 128 ≤ b.toNat) (hc : 128 ≤ c.toNat) :
      IsU29 [a, b, c, d]
        ((a.toNat - 128) * 2 ^ 22 + (b.toNat - 128) * 2 ^ 15 + (c.toNat - 128) * 2 ^ 8 + d.toNat)

theorem IsU29.le {bs : List UInt8} {n : ℕ} (h : IsU29 bs n) : n ≤ u29Max := by
  cases h with
  | one ha => simp only [u29Max]; omega
  | @two a b ha hb => have := a.toNat_lt; simp only [u29Max]; omega
  | @three a b c ha hb hc =>
    have := a.toNat_lt
    have := b.toNat_lt
    simp only [u29Max]
    omega
  | @four a b c d ha hb hc =>
    have := a.toNat_lt
    have := b.toNat_lt
    have := c.toNat_lt
    have := d.toNat_lt
    simp only [u29Max]
    omega

theorem IsU29.length_pos {bs : List UInt8} {n : ℕ} (h : IsU29 bs n) : 0 < bs.length := by
  cases h <;> simp

theorem u29_length_pos (n : ℕ) : 0 < (u29 n).length := by
  unfold u29
  split_ifs <;> simp

theorem isU29_u29 {n : ℕ} (h : n ≤ u29Max) : IsU29 (u29 n) n := by
  have hbyte : ∀ k, k < 256 → (UInt8.ofNat k).toNat = k := fun k hk => by
    rw [UInt8.toNat_ofNat']
    omega
  simp only [u29Max] at h
  unfold u29
  split_ifs with h1 h2 h3
  · have hc := IsU29.one (a := UInt8.ofNat n) (by rw [hbyte _ (by omega)]; omega)
    rwa [hbyte _ (by omega)] at hc
  · have hc := IsU29.two (a := UInt8.ofNat (0x80 + n / 2 ^ 7)) (b := UInt8.ofNat (n % 2 ^ 7))
      (by rw [hbyte _ (by omega)]; omega) (by rw [hbyte _ (by omega)]; omega)
    rw [hbyte _ (by omega), hbyte _ (by omega)] at hc
    convert hc using 1
    omega
  · have hc := IsU29.three (a := UInt8.ofNat (0x80 + n / 2 ^ 14))
      (b := UInt8.ofNat (0x80 + n / 2 ^ 7 % 2 ^ 7)) (c := UInt8.ofNat (n % 2 ^ 7))
      (by rw [hbyte _ (by omega)]; omega) (by rw [hbyte _ (by omega)]; omega)
      (by rw [hbyte _ (by omega)]; omega)
    rw [hbyte _ (by omega), hbyte _ (by omega), hbyte _ (by omega)] at hc
    convert hc using 1
    omega
  · have hc := IsU29.four (a := UInt8.ofNat (0x80 + n / 2 ^ 22))
      (b := UInt8.ofNat (0x80 + n / 2 ^ 15 % 2 ^ 7)) (c := UInt8.ofNat (0x80 + n / 2 ^ 8 % 2 ^ 7))
      (d := UInt8.ofNat (n % 2 ^ 8)) (by rw [hbyte _ (by omega)]; omega)
      (by rw [hbyte _ (by omega)]; omega) (by rw [hbyte _ (by omega)]; omega)
    rw [hbyte _ (by omega), hbyte _ (by omega), hbyte _ (by omega), hbyte _ (by omega)] at hc
    convert hc using 1
    omega

end CServer.Lib
