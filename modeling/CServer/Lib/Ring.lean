import CServer.Lib.Memory

/-! # Circular byte memory

The bytes of a ring of `size` bytes, read and written from position `p` on with indices taken
modulo `size`. A copy in two pieces, up to the end of the ring and on from its start, is one ring
copy.
-/
namespace CServer.Lib
open List Function Nat

def ringSlice (m : Mem) (size p : ℕ) : ℕ → List UInt8
  | 0 => []
  | n + 1 => m (p % size) :: ringSlice m size (p + 1) n

def ringBlit (m : Mem) (size p : ℕ) : List UInt8 → Mem
  | [] => m
  | b :: bs => ringBlit (update m (p % size) b) size (p + 1) bs

variable {m m' : Mem} {size p q n : ℕ}

theorem ring_index_inj {i j : ℕ} (hi : i < size) (hj : j < size) (h : (p + i) % size = (p + j) % size) :
    i = j := by
  have hmod : i ≡ j [MOD size] := Nat.ModEq.add_left_cancel' p h
  rwa [Nat.ModEq, mod_eq_of_lt hi, mod_eq_of_lt hj] at hmod

/-! ## Reading -/

@[simp] theorem ringSlice_length : (ringSlice m size p n).length = n := by
  induction n generalizing p with
  | zero => rfl
  | succ n ih => simp [ringSlice, ih]

theorem ringSlice_congr (hpq : p % size = q % size) (h : ∀ i < n, m ((p + i) % size) = m' ((p + i) % size)) :
    ringSlice m size p n = ringSlice m' size q n := by
  induction n generalizing p q with
  | zero => rfl
  | succ n ih =>
    have h0 := h 0 (by omega)
    rw [Nat.add_zero] at h0
    rw [ringSlice, ringSlice, h0, hpq, ih (p := p + 1) (q := q + 1)]
    · exact Nat.ModEq.add_right 1 hpq
    · intro i hi
      have e : p + 1 + i = p + (i + 1) := by omega
      rw [e]
      exact h (i + 1) (by omega)

theorem ringSlice_mod : ringSlice m size (p % size) n = ringSlice m size p n :=
  ringSlice_congr (mod_mod p size) (fun _ _ => rfl)

theorem ringSlice_add (a b : ℕ) :
    ringSlice m size p (a + b) = ringSlice m size p a ++ ringSlice m size (p + a) b := by
  induction a generalizing p with
  | zero => simp [ringSlice]
  | succ a ih =>
    have e : a + 1 + b = (a + b) + 1 := by omega
    have e' : p + 1 + a = p + (a + 1) := by omega
    rw [e, ringSlice, ringSlice, ih, e', cons_append]

theorem slice_eq_ringSlice (h : p + n ≤ size) : slice m p n = ringSlice m size p n := by
  induction n generalizing p with
  | zero => rfl
  | succ n ih =>
    have hmod : p % size = p := mod_eq_of_lt (by omega)
    rw [slice, ringSlice, hmod, ih (by omega)]

theorem slice_wrap {a b : ℕ} (ha : p + a = size) (hb : b ≤ size) :
    slice m p a ++ slice m 0 b = ringSlice m size p (a + b) := by
  have hfirst : slice m p a = ringSlice m size p a := slice_eq_ringSlice (le_of_eq ha)
  have hsecond : slice m 0 b = ringSlice m size 0 b := slice_eq_ringSlice (by omega)
  have hmod : ringSlice m size 0 b = ringSlice m size size b := by
    rw [← ringSlice_mod (p := size), mod_self]
  rw [ringSlice_add, hfirst, hsecond, hmod, ha]

/-! ## Writing -/

variable {bs : List UInt8}

theorem ringBlit_outside {j : ℕ} (h : ∀ i < bs.length, (p + i) % size ≠ j) :
    ringBlit m size p bs j = m j := by
  induction bs generalizing m p with
  | nil => rfl
  | cons b bs ih =>
    have h0 := h 0 (by simp)
    rw [Nat.add_zero] at h0
    rw [ringBlit, ih, update_of_ne (Ne.symm h0)]
    intro i hi
    have e : p + 1 + i = p + (i + 1) := by omega
    rw [e]
    exact h (i + 1) (by simp only [length_cons]; omega)

theorem ringBlit_append (as bs : List UInt8) :
    ringBlit m size p (as ++ bs) = ringBlit (ringBlit m size p as) size (p + as.length) bs := by
  induction as generalizing m p with
  | nil => rfl
  | cons a as ih =>
    have e : p + (a :: as).length = p + 1 + as.length := by simp only [length_cons]; omega
    rw [cons_append, ringBlit, ih, ringBlit, e]

theorem ringBlit_mod (bs : List UInt8) (h : p % size = q % size) :
    ringBlit m size p bs = ringBlit m size q bs := by
  induction bs generalizing m p q with
  | nil => rfl
  | cons b bs ih => rw [ringBlit, ringBlit, h, ih (p := p + 1) (q := q + 1) (Nat.ModEq.add_right 1 h)]

theorem blit_eq_ringBlit (h : p + bs.length ≤ size) :
    blit m p bs = ringBlit m size p bs := by
  induction bs generalizing m p with
  | nil => simp [ringBlit]
  | cons b bs ih =>
    rw [length_cons] at h
    have hmod : p % size = p := mod_eq_of_lt (by omega)
    rw [blit_cons, ringBlit, hmod, ih (by omega)]

theorem blit_wrap {as bs : List UInt8} (ha : p + as.length = size) (hb : bs.length ≤ size) :
    blit (blit m p as) 0 bs = ringBlit m size p (as ++ bs) := by
  have hmod : (0 : ℕ) % size = size % size := by rw [mod_self, zero_mod]
  have hsecond : blit (blit m p as) 0 bs = ringBlit (blit m p as) size 0 bs :=
    blit_eq_ringBlit (by omega)
  rw [ringBlit_append, hsecond, blit_eq_ringBlit (le_of_eq ha), ha, ringBlit_mod _ hmod]

theorem ringSlice_ringBlit (h : bs.length ≤ size) :
    ringSlice (ringBlit m size p bs) size p bs.length = bs := by
  induction bs generalizing m p with
  | nil => rfl
  | cons b bs ih =>
    rw [length_cons] at h ⊢
    rw [ringBlit, ringSlice, ih (by omega), ringBlit_outside, update_self]
    intro i hi he
    have e : p + 1 + i = p + (i + 1) := by omega
    have e0 : p % size = (p + 0) % size := by rw [Nat.add_zero]
    rw [e, e0] at he
    have := ring_index_inj (by omega) (by omega) he
    omega

theorem ringSlice_ringBlit_before (h : n + bs.length ≤ size) :
    ringSlice (ringBlit m size (p + n) bs) size p n = ringSlice m size p n := by
  refine ringSlice_congr rfl (fun i hi => ringBlit_outside ?_)
  intro j hj he
  have e : p + n + j = p + (n + j) := by omega
  rw [e] at he
  have := ring_index_inj (by omega) (by omega) he
  omega

theorem ringSlice_ringBlit_after (h : bs.length + n ≤ size) :
    ringSlice (ringBlit m size p bs) size (p + bs.length) n = ringSlice m size (p + bs.length) n := by
  refine ringSlice_congr rfl (fun i hi => ringBlit_outside ?_)
  intro j hj he
  have e : p + bs.length + i = p + (bs.length + i) := by omega
  rw [e] at he
  have := ring_index_inj (by omega) (by omega) he
  omega

theorem ringSlice_eq_iff :
    ringSlice m size p bs.length = bs ↔ ∀ i < bs.length, m ((p + i) % size) = bs.getD i 0 := by
  induction bs generalizing p with
  | nil => simp [ringSlice]
  | cons b bs ih =>
    have e : ∀ i, p + (i + 1) = p + 1 + i := fun i => by omega
    rw [length_cons, ringSlice, cons.injEq, ih]
    constructor
    · rintro ⟨h0, h⟩ i hi
      cases i with
      | zero => exact h0
      | succ i =>
        rw [e, getD_cons_succ]
        exact h i (by omega)
    · intro h
      refine ⟨h 0 (by omega), fun i hi => ?_⟩
      have := h (i + 1) (by omega)
      rwa [e, getD_cons_succ] at this

end CServer.Lib
