import CServer.Lib.Memory
import CServer.Lib.U29
import CServer.Lib.Binary64

/-! # `framework/amf.c`: values and the encoder

`amf_encode` stores into an object of `cap` bytes, so that a store at an index from `cap` on is a
fault; `dlen` is the capacity the caller passes, which the recursion over the children of an array
hands on unchanged. `wire` is the complete encoding of a value, and `Emits` what an encoder of it
does at every capacity.
-/
namespace CServer.Framework
open CServer.Lib List

/-! ## Values -/

inductive AmfType
  | undefine
  | null
  | false
  | true
  | integer
  | double
  | string
  | xmlDoc
  | date
  | array
  | object
  | xml
  | byteArray
  | sinteger
  deriving DecidableEq, Repr

def amfCode : AmfType → UInt8
  | .undefine => 0x00
  | .null => 0x01
  | .false => 0x02
  | .true => 0x03
  | .integer => 0x04
  | .double => 0x05
  | .string => 0x06
  | .xmlDoc => 0x07
  | .date => 0x08
  | .array => 0x09
  | .object => 0x0A
  | .xml => 0x0B
  | .byteArray => 0x0C
  | .sinteger => 0x0D

def amfTypeOf (b : UInt8) : Option AmfType :=
  [.undefine, .null, .false, .true, .integer, .double, .string, .xmlDoc, .date, .array, .object, .xml,
    .byteArray, .sinteger].find? fun t => amfCode t == b

theorem amfTypeOf_code (t : AmfType) : amfTypeOf (amfCode t) = some t := by
  cases t <;> rfl

theorem amfTypeOf_eq_some {b : UInt8} {t : AmfType} (h : amfTypeOf b = some t) : b = amfCode t := by
  have := List.find?_some h
  exact (beq_iff_eq.mp this).symm

/-- `struct amf_value`. The `size` of a string, byte array or array is the length of its list, and
a child may be a null pointer; a double is its bit pattern. -/
inductive AmfValue
  | undefine
  | null
  | false
  | true
  | integer (n : UInt32)
  | sinteger (i : Int32)
  | double (d : UInt64)
  | string (s : List UInt8)
  | byteArray (s : List UInt8)
  | array (child : List (Option AmfValue))

def IsLeaf : Option AmfValue → Prop
  | some (.array _) => False
  | _ => True

theorem amfValue_induction {P : Option AmfValue → Prop} {Q : List (Option AmfValue) → Prop}
    (leaf : ∀ v, IsLeaf v → P v) (array : ∀ child, Q child → P (some (.array child)))
    (nil : Q []) (cons : ∀ c child, P c → Q child → Q (c :: child)) : ∀ v, P v
  | none => leaf none trivial
  | some v => by
    refine @AmfValue.rec (fun v => P (some v)) Q P ?_ ?_ ?_ ?_ ?_ ?_ ?_ ?_ ?_ ?_ nil ?_ ?_ ?_ v
    all_goals first
      | exact leaf _ trivial
      | exact fun _ => leaf _ trivial
      | exact array
      | exact cons
      | exact fun _ h => h

/-! ## The encoder -/

def amfIntegerMax : ℕ := 0x1FFFFFFF

/-- `S2UInt29`; the mask keeps the low 29 bits. -/
def s2UInt29 (i : Int32) : Except Fault ℕ := do
  assert (i.toInt ≤ 0xFFFFFFF && -0x10000000 ≤ i.toInt)
  return (i.toInt % 2 ^ 29).toNat

variable (cap : ℕ)

variable (m : Mem)

def store (p : ℕ) (bs : List UInt8) : Except Fault Mem :=
  if p + bs.length ≤ cap then .ok (blit m p bs) else .error .outOfBounds

abbrev Encoded := Except Fault (ℕ × Mem)

def amfEncodeU29 (p len val : ℕ) : Encoded := do
  if val ≤ 0x7F then
    if len < 1 then return (0, m)
    return (1, ← store cap m p [UInt8.ofNat val])
  else if val ≤ 0x3FFF then
    if len < 2 then return (0, m)
    return (2, ← store cap m p [UInt8.ofNat (0x80 + val / 2 ^ 7), UInt8.ofNat (val % 2 ^ 7)])
  else if val ≤ 0x1FFFFF then
    if len < 3 then return (0, m)
    return (3, ← store cap m p [UInt8.ofNat (0x80 + val / 2 ^ 14),
      UInt8.ofNat (0x80 + val / 2 ^ 7 % 2 ^ 7), UInt8.ofNat (val % 2 ^ 7)])
  else if val ≤ 0x1FFFFFFF then
    if len < 4 then return (0, m)
    return (4, ← store cap m p [UInt8.ofNat (0x80 + val / 2 ^ 22),
      UInt8.ofNat (0x80 + val / 2 ^ 15 % 2 ^ 7), UInt8.ofNat (0x80 + val / 2 ^ 8 % 2 ^ 7),
      UInt8.ofNat (val % 2 ^ 8)])
  else .error .assertion

def sizeHeader (size : ℕ) : ℕ := (2 * size + 1) % 2 ^ 32

variable (type : AmfType)

def amfEncodeTyped (val : ℕ) (cap : ℕ) (m : Mem) (p len : ℕ) : Encoded := do
  if len < 1 then return (0, m)
  let m ← store cap m p [amfCode type]
  let (offset, m) ← amfEncodeU29 cap m (p + 1) (len - 1) val
  if offset = 0 then return (0, m)
  return (1 + offset, m)

def amfEncodeHeaded (val : ℕ) (tail : List UInt8) (cap : ℕ) (m : Mem) (p len : ℕ) :
    Encoded := do
  let (w, m) ← amfEncodeTyped type val cap m p len
  if w = 0 then return (0, m)
  if len - w < tail.length then return (0, m)
  let m ← store cap m (p + w) tail
  return (w + tail.length, m)

/-- `amf_encode_array`: the header of an array, with its empty name. -/
def amfEncodeArray (p len size : ℕ) : Encoded :=
  amfEncodeHeaded .array (sizeHeader size) [0x01] cap m p len

variable (p len : ℕ)

/-- `amf_encode_double`: the eight bytes are stored before `DATA_POP` looks at the length. -/
def amfEncodeDouble (d : UInt64) : Encoded := do
  if len < 1 then return (0, m)
  let m ← store cap m p [amfCode .double]
  let m ← store cap m (p + 1) (Binary64.toBytes d)
  if len - 1 < 8 then return (0, m)
  return (1 + 8, m)

def amfEncodeIntegerWithType (p len integer : ℕ) (type : AmfType) : Encoded := do
  assert (type == .integer || type == .sinteger)
  if amfIntegerMax < integer then amfEncodeDouble cap m p len (Binary64.ofNat integer)
  else amfEncodeTyped type integer cap m p len

def amfEncodeInteger (n : UInt32) : Encoded :=
  amfEncodeIntegerWithType cap m p len n.toNat .integer

def amfEncodeSinteger (i : Int32) : Encoded := do
  let u ← s2UInt29 i
  amfEncodeIntegerWithType cap m p len u .sinteger

def strlen (s : List UInt8) : ℕ := (s.takeWhile (· ≠ 0)).length

def amfEncodeString (s : List UInt8) : Encoded :=
  let strLen := if s.length = 0 then strlen s else s.length
  amfEncodeHeaded .string (sizeHeader strLen) (s.take strLen) cap m p len

def amfEncodeByteArray (s : List UInt8) : Encoded :=
  amfEncodeHeaded .byteArray (sizeHeader s.length) s cap m p len

def amfEncodeTag (cap : ℕ) (m : Mem) (p dlen : ℕ) : Encoded := do
  if dlen < 1 then return (0, m)
  return (1, ← store cap m p [amfCode type])

def amfEncodeUndefine : ℕ → Mem → ℕ → ℕ → Encoded := amfEncodeTag .undefine
def amfEncodeNull : ℕ → Mem → ℕ → ℕ → Encoded := amfEncodeTag .null
def amfEncodeFalse : ℕ → Mem → ℕ → ℕ → Encoded := amfEncodeTag .false
def amfEncodeTrue : ℕ → Mem → ℕ → ℕ → Encoded := amfEncodeTag .true

mutual

def amfEncode (cap : ℕ) (m : Mem) (p dlen : ℕ) : Option AmfValue → Encoded
  | none => amfEncodeNull cap m p dlen
  | some v => amfEncodeNode cap m p dlen v

def amfEncodeNode (cap : ℕ) (m : Mem) (p dlen : ℕ) : AmfValue → Encoded
  | .undefine => amfEncodeUndefine cap m p dlen
  | .null => amfEncodeNull cap m p dlen
  | .false => amfEncodeFalse cap m p dlen
  | .true => amfEncodeTrue cap m p dlen
  | .integer n => amfEncodeInteger cap m p dlen n
  | .sinteger i => amfEncodeSinteger cap m p dlen i
  | .string s => amfEncodeString cap m p dlen s
  | .double d => amfEncodeDouble cap m p dlen d
  | .byteArray s => amfEncodeByteArray cap m p dlen s
  | .array child => do
    let (wlen, m) ← amfEncodeArray cap m p dlen child.length
    let (w, m) ← amfEncodeChildren cap m (p + wlen) dlen child
    return (wlen + w, m)

def amfEncodeChildren (cap : ℕ) (m : Mem) (p dlen : ℕ) : List (Option AmfValue) → Encoded
  | [] => .ok (0, m)
  | c :: child => do
    let (w, m) ← amfEncode cap m p dlen c
    let (ws, m) ← amfEncodeChildren cap m (p + w) dlen child
    return (w + ws, m)

end

/-! ## The length an encoding needs -/

def amfGetLengthU29 (val : ℕ) : Except Fault ℕ :=
  if val ≤ 0x7F then .ok 1
  else if val ≤ 0x3FFF then .ok 2
  else if val ≤ 0x1FFFFF then .ok 3
  else if val ≤ 0x1FFFFFFF then .ok 4
  else .error .assertion

def amfGetLengthArray (size : ℕ) : Except Fault ℕ := do
  return 1 + (← amfGetLengthU29 (sizeHeader size)) + 1

def amfGetLengthDouble : ℕ := 9

def amfGetLengthInteger (integer : ℕ) : Except Fault ℕ := do
  if 0x1FFFFFFF < integer then return amfGetLengthDouble
  return 1 + (← amfGetLengthU29 integer)

def amfGetLengthSinteger (i : Int32) : Except Fault ℕ := do
  amfGetLengthInteger (← s2UInt29 i)

def amfGetLengthString (strLen : ℕ) : Except Fault ℕ := do
  return 1 + (← amfGetLengthU29 (sizeHeader strLen)) + strLen

def amfGetLengthByteArray (strLen : ℕ) : Except Fault ℕ := amfGetLengthString strLen

mutual

def amfGetEncodeLength : Option AmfValue → Except Fault ℕ
  | none => .ok 1
  | some v => amfGetNodeLength v

def amfGetNodeLength : AmfValue → Except Fault ℕ
  | .undefine => .ok 1
  | .null => .ok 1
  | .false => .ok 1
  | .true => .ok 1
  | .integer n => amfGetLengthInteger n.toNat
  | .sinteger i => amfGetLengthSinteger i
  | .string s => amfGetLengthString s.length
  | .double _ => .ok amfGetLengthDouble
  | .byteArray s => amfGetLengthByteArray s.length
  | .array child => do
    let wlen ← amfGetLengthArray child.length
    return wlen + (← amfGetChildrenLength child)

def amfGetChildrenLength : List (Option AmfValue) → Except Fault ℕ
  | [] => .ok 0
  | c :: child => do
    let w ← amfGetEncodeLength c
    return w + (← amfGetChildrenLength child)

end

/-! ## The complete encoding -/

def sintegerBits (i : Int32) : ℕ := (i.toInt % 2 ^ 29).toNat

mutual

def wire : Option AmfValue → List UInt8
  | none => [amfCode .null]
  | some v => wireNode v

def wireNode : AmfValue → List UInt8
  | .undefine => [amfCode .undefine]
  | .null => [amfCode .null]
  | .false => [amfCode .false]
  | .true => [amfCode .true]
  | .integer n =>
    if amfIntegerMax < n.toNat then amfCode .double :: Binary64.toBytes (Binary64.ofNat n.toNat)
    else amfCode .integer :: u29 n.toNat
  | .sinteger i => amfCode .sinteger :: u29 (sintegerBits i)
  | .string s => amfCode .string :: (u29 (2 * s.length + 1) ++ s)
  | .double d => amfCode .double :: Binary64.toBytes d
  | .byteArray s => amfCode .byteArray :: (u29 (2 * s.length + 1) ++ s)
  | .array child => amfCode .array :: (u29 (2 * child.length + 1) ++ [0x01]) ++ wireChildren child

def wireChildren : List (Option AmfValue) → List UInt8
  | [] => []
  | c :: child => wire c ++ wireChildren child

end

mutual

/-- The format can express the value: every size fits a header, every signed integer 29 bits. -/
def Encodable : Option AmfValue → Prop
  | none => True
  | some v => EncodableNode v

def EncodableNode : AmfValue → Prop
  | .sinteger i => i.toInt ≤ 0xFFFFFFF ∧ -0x10000000 ≤ i.toInt
  | .string s => 2 * s.length + 1 ≤ u29Max
  | .byteArray s => 2 * s.length + 1 ≤ u29Max
  | .array child => 2 * child.length + 1 ≤ u29Max ∧ EncodableChildren child
  | _ => True

def EncodableChildren : List (Option AmfValue) → Prop
  | [] => True
  | c :: child => Encodable c ∧ EncodableChildren child

end

/-! ## What an encoder does at every capacity -/

/-- An encoder of `bs`: with room it stores `bs` and returns its length; whenever it returns, it
returns that or, without room, 0. -/
structure Emits (enc : ℕ → Mem → ℕ → ℕ → Encoded) (bs : List UInt8) : Prop where
  complete : ∀ cap m p len, bs.length ≤ len → p + bs.length ≤ cap →
    enc cap m p len = .ok (bs.length, blit m p bs)
  returns : ∀ cap m p len r m', enc cap m p len = .ok (r, m') →
    (r = bs.length ∧ bs.length ≤ len ∧ p + r ≤ cap) ∨ (r = 0 ∧ len < bs.length)

/-- An encoder that, without room, returns 0 and stores nothing at an index from `p + len` on. -/
structure Careful (enc : ℕ → Mem → ℕ → ℕ → Encoded) (bs : List UInt8) : Prop extends Emits enc bs where
  refuses : ∀ cap m p len, len < bs.length → p + len ≤ cap → ∃ m', enc cap m p len = .ok (0, m')

theorem store_ok {cap p : ℕ} {bs : List UInt8} (m : Mem) (h : p + bs.length ≤ cap) :
    store cap m p bs = .ok (blit m p bs) := if_pos h

theorem store_inv {cap p : ℕ} {bs : List UInt8} {m m' : Mem} (h : store cap m p bs = .ok m') :
    p + bs.length ≤ cap ∧ m' = blit m p bs := by
  unfold store at h
  split at h
  · next hle => exact ⟨hle, (Except.ok.inj h).symm⟩
  · cases h

theorem careful_store {enc : ℕ → Mem → ℕ → ℕ → Encoded} {bs : List UInt8}
    (h : ∀ cap m p len, enc cap m p len = if len < bs.length then .ok (0, m)
      else store cap m p bs >>= fun m => .ok (bs.length, m)) : Careful enc bs where
  complete cap m p len hlen hcap := by
    rw [h, if_neg (by omega), store_ok m hcap, ok_bind]
  returns cap m p len r m' hr := by
    rw [h] at hr
    split at hr
    · next hlt => exact Or.inr ⟨by simp only [ok_pair_iff] at hr; omega, hlt⟩
    · obtain ⟨m1, hm, hr⟩ := bind_ok_iff.mp hr
      simp only [ok_pair_iff] at hr
      exact Or.inl ⟨hr.1.symm, by omega, by have := (store_inv hm).1; omega⟩
  refuses cap m p len hlen hcap := by
    rw [h, if_pos hlen]
    exact ⟨m, rfl⟩

theorem careful_tag : Careful (amfEncodeTag type) [amfCode type] :=
  careful_store fun _ _ _ _ => rfl

theorem careful_u29 {val : ℕ} (h : val ≤ u29Max) :
    Careful (fun cap m p len => amfEncodeU29 cap m p len val) (u29 val) := by
  refine careful_store fun cap m p len => ?_
  by_cases h1 : val ≤ 0x7F
  · simp only [amfEncodeU29, u29, h1, if_true]
    rfl
  by_cases h2 : val ≤ 0x3FFF
  · simp only [amfEncodeU29, u29, h1, h2, if_true, if_false]
    rfl
  by_cases h3 : val ≤ 0x1FFFFF
  · simp only [amfEncodeU29, u29, h1, h2, h3, if_true, if_false]
    rfl
  · have h4 : val ≤ 0x1FFFFFFF := h
    simp only [amfEncodeU29, u29, h1, h2, h3, h4, if_true, if_false]
    rfl

theorem careful_typed {val : ℕ} (h : val ≤ u29Max) :
    Careful (amfEncodeTyped type val) (amfCode type :: u29 val) where
  complete cap m p len hlen hcap := by
    simp only [length_cons] at hlen hcap
    have hpos := u29_length_pos val
    rw [amfEncodeTyped, if_neg (by omega), store_ok m (by simp only [length_singleton]; omega), ok_bind,
      (careful_u29 h).complete cap _ (p + 1) (len - 1) (by omega) (by omega), ok_bind]
    simp only
    rw [if_neg (by omega), pure_eq_ok, length_cons, Nat.add_comm 1]
    congr 2
    exact (blit_append m p [amfCode type] (u29 val)).symm
  returns cap m p len r m' hr := by
    have hpos := u29_length_pos val
    unfold amfEncodeTyped at hr
    split at hr
    · next hlt =>
      simp only [pure_eq_ok, ok_pair_iff] at hr
      exact Or.inr ⟨hr.1.symm, by simp only [length_cons]; omega⟩
    obtain ⟨m1, -, hr⟩ := bind_ok_iff.mp hr
    obtain ⟨⟨offset, m2⟩, hu, hr⟩ := bind_ok_iff.mp hr
    simp only [length_cons]
    rcases (careful_u29 h).returns _ _ _ _ _ _ hu with ⟨ho, hle, hcap⟩ | ⟨ho, hlt⟩
    · simp only [show offset ≠ 0 by omega, if_false, pure_eq_ok, ok_pair_iff] at hr
      exact Or.inl ⟨by omega, by omega, by omega⟩
    · simp only [ho, if_true, pure_eq_ok, ok_pair_iff] at hr
      exact Or.inr ⟨hr.1.symm, by omega⟩
  refuses cap m p len hlen hcap := by
    simp only [length_cons] at hlen
    by_cases hz : len < 1
    · exact ⟨m, by rw [amfEncodeTyped, if_pos hz, pure_eq_ok]⟩
    · obtain ⟨m', hm'⟩ := (careful_u29 h).refuses cap (blit m p [amfCode type]) (p + 1) (len - 1)
        (by omega) (by omega)
      refine ⟨m', ?_⟩
      rw [amfEncodeTyped, if_neg hz, store_ok m (by simp only [length_singleton]; omega), ok_bind, hm',
        ok_bind]
      rfl

theorem careful_headed {val : ℕ} (h : val ≤ u29Max) (tail : List UInt8) :
    Careful (amfEncodeHeaded type val tail) (amfCode type :: (u29 val ++ tail)) where
  complete cap m p len hlen hcap := by
    simp only [length_cons, length_append] at hlen hcap
    rw [amfEncodeHeaded, (careful_typed type h).complete cap m p len (by simp only [length_cons]; omega)
      (by simp only [length_cons]; omega), ok_bind]
    simp only [length_cons]
    rw [if_neg (by omega), if_neg (by omega), store_ok _ (by omega), ok_bind, pure_eq_ok]
    have hlength : (u29 val).length + 1 + tail.length = (u29 val ++ tail).length + 1 := by
      rw [length_append]
      omega
    rw [hlength, ← cons_append, blit_append, length_cons]
  returns cap m p len r m' hr := by
    obtain ⟨⟨w, m1⟩, hw, hr⟩ := bind_ok_iff.mp hr
    simp only [length_cons, length_append]
    rcases (careful_typed type h).returns _ _ _ _ _ _ hw with ⟨ho, hle, hcap⟩ | ⟨ho, hlt⟩
    · simp only [length_cons] at ho hle
      simp only [show w ≠ 0 by omega, if_false] at hr
      split at hr
      · simp only [pure_eq_ok, ok_pair_iff] at hr
        exact Or.inr ⟨hr.1.symm, by omega⟩
      · obtain ⟨m2, hm, hr⟩ := bind_ok_iff.mp hr
        simp only [pure_eq_ok, ok_pair_iff] at hr
        have := (store_inv hm).1
        exact Or.inl ⟨by omega, by omega, by omega⟩
    · simp only [ho, if_true, pure_eq_ok, ok_pair_iff] at hr
      simp only [length_cons] at hlt
      exact Or.inr ⟨hr.1.symm, by omega⟩
  refuses cap m p len hlen hcap := by
    simp only [length_cons, length_append] at hlen
    by_cases hfit : (amfCode type :: u29 val).length ≤ len
    · have hc := (careful_typed type h).complete cap m p len hfit (by omega)
      simp only [length_cons] at hc hfit
      refine ⟨blit m p (amfCode type :: u29 val), ?_⟩
      rw [amfEncodeHeaded, hc, ok_bind]
      simp only
      rw [if_neg (by omega), if_pos (by omega), pure_eq_ok]
    · obtain ⟨m', hm'⟩ := (careful_typed type h).refuses cap m p len (by omega) hcap
      refine ⟨m', ?_⟩
      rw [amfEncodeHeaded, hm', ok_bind]
      rfl

theorem emits_double (d : UInt64) :
    Emits (fun cap m p len => amfEncodeDouble cap m p len d) (amfCode .double :: Binary64.toBytes d) where
  complete cap m p len hlen hcap := by
    simp only [length_cons, Binary64.toBytes_length] at hlen hcap
    rw [amfEncodeDouble, if_neg (by omega), store_ok m (by simp only [length_singleton]; omega), ok_bind,
      store_ok _ (by rw [Binary64.toBytes_length]; omega), ok_bind, if_neg (by omega), pure_eq_ok]
    congr 2
    exact (blit_append m p [amfCode .double] (Binary64.toBytes d)).symm
  returns cap m p len r m' hr := by
    simp only [length_cons, Binary64.toBytes_length]
    unfold amfEncodeDouble at hr
    split at hr
    · simp only [pure_eq_ok, ok_pair_iff] at hr
      exact Or.inr ⟨hr.1.symm, by omega⟩
    obtain ⟨m1, -, hr⟩ := bind_ok_iff.mp hr
    obtain ⟨m2, hm, hr⟩ := bind_ok_iff.mp hr
    have hle := (store_inv hm).1
    rw [Binary64.toBytes_length] at hle
    split at hr
    · simp only [pure_eq_ok, ok_pair_iff] at hr
      exact Or.inr ⟨hr.1.symm, by omega⟩
    · simp only [pure_eq_ok, ok_pair_iff] at hr
      exact Or.inl ⟨by omega, by omega, by omega⟩

end CServer.Framework
