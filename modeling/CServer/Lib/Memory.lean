import Mathlib.Tactic

/-! # Byte memory and the ways a C function can fail

A memory object is a function from offsets to bytes; a pointer into it is an offset. The bounds
of the object are checked by the functions that access it, so that an access outside them is a
`Fault` and not a silent success.
-/
namespace CServer.Lib
open List Function

/-- What ends a C function before it returns: a failing `assert`, an access outside the object it
belongs to, a loop that never ends, a division by zero. -/
inductive Fault
  | assertion
  | outOfBounds
  | diverges
  | divisionByZero
  deriving DecidableEq, Repr

@[simp] theorem ok_bind {ε α β : Type} (a : α) (f : α → Except ε β) : ((.ok a : Except ε α) >>= f) = f a := rfl

@[simp] theorem pure_eq_ok {ε α : Type} (a : α) : (pure a : Except ε α) = .ok a := rfl

theorem bind_ok_iff {ε α β : Type} {x : Except ε α} {f : α → Except ε β} {b : β} :
    x >>= f = .ok b ↔ ∃ a, x = .ok a ∧ f a = .ok b := by
  cases x with
  | error e => simp [bind, Except.bind]
  | ok a => simp [bind, Except.bind]

theorem ok_pair_iff {ε α β : Type} {a a' : α} {b b' : β} :
    (.ok (a, b) : Except ε (α × β)) = .ok (a', b') ↔ a = a' ∧ b = b' := by
  rw [Except.ok.injEq, Prod.mk.injEq]

theorem ok_pair_inj {ε α β : Type} {a a' : α} {b b' : β} (h : (.ok (a, b) : Except ε (α × β)) = .ok (a', b')) :
    a = a' ∧ b = b' := ok_pair_iff.mp h

theorem ok_unique {ε α : Type} {x : Except ε α} {a b : α} (h : x = .ok a) (h' : x = .ok b) : a = b :=
  Except.ok.inj (h.symm.trans h')

theorem some_unique {α : Type} {x : Option α} {a b : α} (h : x = some a) (h' : x = some b) : a = b :=
  Option.some.inj (h.symm.trans h')

def assert (c : Bool) : Except Fault Unit := if c then .ok () else .error .assertion

@[simp] theorem assert_true : assert true = .ok () := rfl

theorem assert_of {c : Bool} (h : c = true) : assert c = .ok () := by rw [h]; rfl

theorem exists_succ_of_lt {m fuel : ℕ} (h : m < fuel) : ∃ n, fuel = n + 1 := ⟨fuel - 1, by omega⟩

abbrev Mem := ℕ → UInt8

/-! ## Reading -/

def slice (m : Mem) (p : ℕ) : ℕ → List UInt8
  | 0 => []
  | n + 1 => m p :: slice m (p + 1) n

variable (m : Mem)

@[simp] theorem slice_length (p n : ℕ) : (slice m p n).length = n := by
  induction n generalizing p with
  | zero => rfl
  | succ n ih => simp [slice, ih]

variable (p : ℕ)

@[simp] theorem slice_zero : slice m p 0 = [] := rfl

theorem slice_add (p a b : ℕ) : slice m p (a + b) = slice m p a ++ slice m (p + a) b := by
  induction a generalizing p with
  | zero => simp
  | succ a ih =>
    have e : a + 1 + b = (a + b) + 1 := by omega
    have e' : p + 1 + a = p + (a + 1) := by omega
    rw [e, slice, slice, ih, e', cons_append]

theorem slice_split (p a n : ℕ) (h : a ≤ n) :
    slice m p n = slice m p a ++ slice m (p + a) (n - a) := by
  rw [← slice_add]
  congr 1
  omega

theorem slice_take (p a n : ℕ) (h : a ≤ n) : (slice m p n).take a = slice m p a := by
  rw [slice_split m p a n h, take_left' (slice_length m p a)]

theorem slice_drop (p a n : ℕ) (h : a ≤ n) :
    (slice m p n).drop a = slice m (p + a) (n - a) := by
  rw [slice_split m p a n h, drop_left' (slice_length m p a)]

theorem slice_congr (m m' : Mem) (p p' n : ℕ) (h : ∀ i < n, m (p + i) = m' (p' + i)) :
    slice m p n = slice m' p' n := by
  induction n generalizing p p' with
  | zero => rfl
  | succ n ih =>
    have h0 := h 0 (by omega)
    rw [slice, slice, ih (p + 1) (p' + 1)]
    · simpa using h0
    · intro i hi
      have h1 := h (i + 1) (by omega)
      have e : ∀ q, q + 1 + i = q + (i + 1) := fun q => by omega
      rw [e, e]
      exact h1

/-! ## Writing -/

variable (bs : List UInt8)

def blit : Mem :=
  fun i => if p ≤ i ∧ i < p + bs.length then bs.getD (i - p) 0 else m i

def shift (dst src n : ℕ) : Mem :=
  fun i => if dst ≤ i ∧ i < dst + n then m (src + (i - dst)) else m i

@[simp] theorem blit_nil : blit m p [] = m := by
  funext i
  have h : ¬ (p ≤ i ∧ i < p + 0) := by omega
  simp only [blit, length_nil, h, if_false]

theorem blit_outside (i : ℕ) (h : i < p ∨ p + bs.length ≤ i) :
    blit m p bs i = m i := by
  have h' : ¬ (p ≤ i ∧ i < p + bs.length) := by omega
  simp only [blit, h', if_false]

theorem blit_cons (b : UInt8) (bs : List UInt8) :
    blit m p (b :: bs) = blit (update m p b) (p + 1) bs := by
  funext i
  by_cases hi : i = p
  · subst hi
    simp [blit]
  · by_cases hin : p + 1 ≤ i ∧ i < p + 1 + bs.length
    · have hin' : p ≤ i ∧ i < p + (b :: bs).length := by simp only [length_cons]; omega
      obtain ⟨k, rfl⟩ : ∃ k, i = p + 1 + k := ⟨i - (p + 1), by omega⟩
      have e1 : p + 1 + k - p = k + 1 := by omega
      have e2 : p + 1 + k - (p + 1) = k := by omega
      simp only [blit, hin, hin', and_self, if_true, e1, e2, getD_cons_succ]
    · have hin' : ¬ (p ≤ i ∧ i < p + (b :: bs).length) := by simp only [length_cons]; omega
      simp only [blit, hin, hin', if_false, update_of_ne hi]

theorem blit_append (as bs : List UInt8) :
    blit m p (as ++ bs) = blit (blit m p as) (p + as.length) bs := by
  induction as generalizing m p with
  | nil => simp
  | cons a as ih =>
    have e : p + (a :: as).length = p + 1 + as.length := by simp only [length_cons]; omega
    rw [cons_append, blit_cons, ih, blit_cons, e]

theorem slice_blit_outside (q n : ℕ)
    (h : q + n ≤ p ∨ p + bs.length ≤ q) : slice (blit m p bs) q n = slice m q n := by
  apply slice_congr
  intro i hi
  exact blit_outside m p bs (q + i) (by omega)

theorem slice_blit : slice (blit m p bs) p bs.length = bs := by
  induction bs generalizing m p with
  | nil => rfl
  | cons b bs ih =>
    rw [blit_cons, length_cons, slice, ih]
    congr 1
    rw [blit_outside _ _ _ _ (by omega), update_self]

theorem slice_shift (dst src n : ℕ) : slice (shift m dst src n) dst n = slice m src n := by
  apply slice_congr
  intro i hi
  have h : dst ≤ dst + i ∧ dst + i < dst + n := by omega
  simp only [shift, h, and_self, if_true, Nat.add_sub_cancel_left]

/-! ## Words -/

def le32 (n : ℕ) : List UInt8 :=
  [UInt8.ofNat n, UInt8.ofNat (n / 2 ^ 8), UInt8.ofNat (n / 2 ^ 16), UInt8.ofNat (n / 2 ^ 24)]

def ofLe32 : ℕ := bs.foldr (fun b n => b.toNat + 2 ^ 8 * n) 0

@[simp] theorem le32_length (n : ℕ) : (le32 n).length = 4 := rfl

theorem ofLe32_le32 {n : ℕ} (h : n < 2 ^ 32) : ofLe32 (le32 n) = n := by
  simp only [le32, ofLe32, foldr_cons, foldr_nil, UInt8.toNat_ofNat']
  omega

theorem le32_ofLe32 {bs : List UInt8} (h : bs.length = 4) : le32 (ofLe32 bs) = bs := by
  obtain ⟨a, b, c, d, rfl⟩ : ∃ a b c d, bs = [a, b, c, d] := by
    match bs, h with
    | [a, b, c, d], _ => exact ⟨a, b, c, d, rfl⟩
  have ha := a.toNat_lt
  have hb := b.toNat_lt
  have hc := c.toNat_lt
  have hd := d.toNat_lt
  simp only [ofLe32, foldr_cons, foldr_nil, le32, cons.injEq, and_true]
  refine ⟨UInt8.toNat_inj.mp ?_, UInt8.toNat_inj.mp ?_, UInt8.toNat_inj.mp ?_, UInt8.toNat_inj.mp ?_⟩
  all_goals
    rw [UInt8.toNat_ofNat']
    omega

end CServer.Lib
