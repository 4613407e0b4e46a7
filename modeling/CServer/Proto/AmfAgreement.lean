import CServer.Proto.Amf
import CServer.Framework.AmfSkip

/-! # The C and the Go codec

A value of the common format, as a Go and as a C value. What one side writes the other reads back,
but for negative integers: Go writes the magnitude under the type of unsigned integers, and reads a
signed integer as a magnitude where C has written the low bits of the two's complement.
-/
namespace CServer.Proto
open CServer.Lib CServer.Framework List Option

/-! ## Values of the common format -/

inductive Value
  | null
  | bool (b : Bool)
  | integer (i : ℤ)
  | string (s : List UInt8)
  | bytes (s : List UInt8)
  | array (vs : List Value)

theorem value_induction {P : Value → Prop} {Q : List Value → Prop} (null : P .null) (bool : ∀ b, P (.bool b))
    (integer : ∀ i, P (.integer i)) (string : ∀ s, P (.string s)) (bytes : ∀ s, P (.bytes s))
    (array : ∀ vs, Q vs → P (.array vs)) (nil : Q []) (cons : ∀ v vs, P v → Q vs → Q (v :: vs)) : ∀ v, P v :=
  fun v => @Value.rec P Q null bool integer string bytes array nil cons v

mutual

def toGo : Value → GoValue
  | .null => .nil
  | .bool b => .bool b
  | .integer i => .int i
  | .string s => .string s
  | .bytes s => .bytes s
  | .array vs => .slice (toGos vs)

def toGos : List Value → List GoValue
  | [] => []
  | v :: vs => toGo v :: toGos vs

end

mutual

def toC : Value → AmfValue
  | .null => .null
  | .bool b => if b then .true else .false
  | .integer i => if i < 0 then .sinteger (Int32.ofInt i) else .integer (UInt32.ofNat i.toNat)
  | .string s => .string s
  | .bytes s => .byteArray s
  | .array vs => .array (toCs vs)

def toCs : List Value → List (Option AmfValue)
  | [] => []
  | v :: vs => some (toC v) :: toCs vs

end

mutual

def ofC : AmfValue → Option Value
  | .null => some .null
  | .false => some (.bool false)
  | .true => some (.bool true)
  | .integer n => some (.integer n.toNat)
  | .sinteger i => some (.integer i.toInt)
  | .string s => some (.string s)
  | .byteArray s => some (.bytes s)
  | .array child => (ofCs child).map .array
  | .undefine => none
  | .double _ => none

def ofCs : List (Option AmfValue) → Option (List Value)
  | [] => some []
  | none :: _ => none
  | some v :: child => (ofC v).bind fun v => (ofCs child).map fun vs => v :: vs

end

mutual

def ofGo : GoValue → Option Value
  | .nil => some .null
  | .bool b => some (.bool b)
  | .int i => some (.integer i)
  | .uint n => some (.integer n)
  | .float _ => none
  | .string s => some (.string s)
  | .bytes s => some (.bytes s)
  | .slice vs => (ofGos vs).map .array

def ofGos : List GoValue → Option (List Value)
  | [] => some []
  | v :: vs => (ofGo v).bind fun v => (ofGos vs).map fun vs => v :: vs

end

mutual

/-- Integers of 29 bits with their sign, sizes that fit a header. -/
def Within : Value → Prop
  | .integer i => -0xFFFFFFF ≤ i ∧ i ≤ 0xFFFFFFF
  | .string s => 2 * s.length + 1 ≤ u29Max
  | .bytes s => 2 * s.length + 1 ≤ u29Max
  | .array vs => 2 * vs.length + 1 ≤ u29Max ∧ WithinAll vs
  | _ => True

def WithinAll : List Value → Prop
  | [] => True
  | v :: vs => Within v ∧ WithinAll vs

end

mutual

def stringCount : Value → ℕ
  | .string _ => 1
  | .array vs => stringCounts vs
  | _ => 0

def stringCounts : List Value → ℕ
  | [] => 0
  | v :: vs => stringCount v + stringCounts vs

end

mutual

def NonNegative : Value → Prop
  | .integer i => 0 ≤ i
  | .array vs => NonNegativeAll vs
  | _ => True

def NonNegativeAll : List Value → Prop
  | [] => True
  | v :: vs => NonNegative v ∧ NonNegativeAll vs

end

/-- `amf_read` of what `Encode` writes, with anything after it, consumes what was written and gives the
value. -/
def ReadByC (v : Value) : Prop :=
  ∀ float64, ∃ w, Encode float64 (toGo v) = .ok w ∧ w.n = w.bytes.length ∧
    ∀ (stale : Stale) (beyond : Mem) (trailing : List UInt8), ∃ value,
      amfRead stale beyond (w.bytes ++ trailing) = .ok (some (value, w.n)) ∧ ofC value = some v

/-- `Decode` of what `amf_encode` writes, with anything after it, leaves what comes after and gives the
value. -/
def ReadByGo (v : Value) : Prop :=
  ∃ need, amfGetEncodeLength (some (toC v)) = .ok need ∧ ∀ (dlen : ℕ) (m : Mem), need ≤ dlen →
    ∃ r m', amfEncode dlen m 0 dlen (some (toC v)) = .ok (r, m') ∧
      ∀ trailing, ∃ value, Decode (slice m' 0 r ++ trailing) = .ok (value, trailing) ∧ ofGo value = some v

/-! ## Numbers -/

theorem encodeU29_ok {n : ℕ} (h : n ≤ u29Max) : encodeU29 n = .ok (u29 n) := by
  have h4 : n ≤ 0x1FFFFFFF := h
  unfold encodeU29 u29
  split_ifs <;> rfl

theorem decodeU29From_eq (r : Reader) : ∀ i value, decodeU29From i value r =
    match decodeU29Loop i value r with
    | none => .error .eof
    | some next => .ok next := by
  induction r with
  | nil => exact fun _ _ => rfl
  | cons c r ih =>
    intro i value
    rw [decodeU29From, decodeU29Loop]
    split
    · split
      · split
        · exact ih _ _
        · exact ih _ _
      · rfl
    · rfl

theorem decodeU29_complete {bs : List UInt8} {n : ℕ} (h : IsU29 bs n) (r : Reader) :
    decodeU29 (bs ++ r) = .ok (n, r) := by
  have hc := amfDecodeU29_complete h r
  rw [amfDecodeU29] at hc
  rw [decodeU29, decodeU29From_eq, hc]

def goBits (i : ℤ) : ℕ := if 0 ≤ i then i.toNat else 0x10000000 + (-i).toNat

theorem goBits_le {i : ℤ} (h : -0xFFFFFFF ≤ i ∧ i ≤ 0xFFFFFFF) : goBits i ≤ u29Max := by
  rw [goBits, u29Max]
  split
  · omega
  · omega

theorem goBits_eq_iff {i : ℤ} (h : -0xFFFFFFF ≤ i ∧ i ≤ 0xFFFFFFF) : (goBits i : ℤ) = i ↔ 0 ≤ i := by
  rw [goBits]
  split
  · omega
  · omega

theorem encodeInt_ok {i : ℤ} (h : -0xFFFFFFF ≤ i ∧ i ≤ 0xFFFFFFF) (float64 : ℤ → UInt64) :
    encodeInt float64 i = .ok ⟨(u29 (goBits i)).length + 1, amfCode .integer :: u29 (goBits i)⟩ := by
  have hin : ¬ (goIntegerMax < i ∨ i < -goIntegerMax) := by
    rw [goIntegerMax]
    omega
  have hs2u : s2u i = .ok (goBits i) := by
    rw [s2u, if_neg hin, goBits]
    split
    · rfl
    · rfl
  rw [encodeInt, if_neg hin, hs2u, ok_bind, encodeU29_ok (goBits_le h), ok_bind, pure_eq_ok]

/-! ## Go writes, C reads -/

mutual

def seen : Value → AmfValue
  | .null => .null
  | .bool b => if b then .true else .false
  | .integer i => .integer (UInt32.ofNat (goBits i))
  | .string s => .string s
  | .bytes s => .byteArray s
  | .array vs => .array ((seens vs).map some)

def seens : List Value → List AmfValue
  | [] => []
  | v :: vs => seen v :: seens vs

end

theorem seens_length (vs : List Value) : (seens vs).length = vs.length := by
  induction vs with
  | nil => rfl
  | cons v vs ih => rw [seens, length_cons, length_cons, ih]

theorem toGos_length (vs : List Value) : (toGos vs).length = vs.length := by
  induction vs with
  | nil => rfl
  | cons v vs ih => rw [toGos, length_cons, length_cons, ih]

theorem encodeString_reads {s : List UInt8} (h : 2 * s.length + 1 ≤ u29Max) (ref : ReferenceLog)
    (hroom : ref.strings.length < stringRefSize) :
    ∃ bs strings, encodeString s ref = .ok (⟨bs.length, bs⟩, { ref with strings := strings }) ∧
      Leaf ref.strings bs (.string s) strings ∧ strings.length ≤ ref.strings.length + 1 := by
  rw [encodeString]
  cases hi : ref.strings.idxOf? s with
  | some i =>
    obtain ⟨hlt, hget, -⟩ := List.idxOf?_eq_some_iff.mp hi
    have hget : ref.strings[i]? = some s := by rw [List.getElem?_eq_getElem hlt, hget]
    have hl : 2 * (i % 2 ^ 32) % 2 ^ 32 = 2 * i := by
      rw [stringRefSize] at hroom
      omega
    have hle : 2 * i ≤ u29Max := by
      rw [stringRefSize] at hroom
      rw [u29Max]
      omega
    have hnot : ¬ 0x1FFFFFFF < 2 * i := Nat.not_lt.mpr hle
    refine ⟨amfCode .string :: u29 (2 * i), ref.strings, ?_, .stringRef (isU29_u29 hle) hget, Nat.le_succ _⟩
    simp only [hl, hnot, if_false, encodeU29_ok hle, ok_bind, pure_eq_ok, length_cons]
  | none =>
    have hnot : ¬ 0x1FFFFFFF < 2 * s.length + 1 := Nat.not_lt.mpr h
    refine ⟨amfCode .string :: (u29 (2 * s.length + 1) ++ s), ref.strings ++ [s], ?_, .string (isU29_u29 h), ?_⟩
    · simp only [sizeHeader_eq h, hnot, if_false, encodeU29_ok h, ok_bind, pure_eq_ok, length_cons,
        length_append, Nat.add_comm s.length]
    · rw [length_append, length_singleton]

theorem encodeByteArray_ok {s : List UInt8} (h : 2 * s.length + 1 ≤ u29Max) :
    encodeByteArray s = .ok ⟨(wire (some (.byteArray s))).length, wire (some (.byteArray s))⟩ := by
  have hnot : ¬ 0x1FFFFFFF < 2 * s.length + 1 := Nat.not_lt.mpr h
  simp only [encodeByteArray, sizeHeader_eq h, hnot, if_false, encodeU29_ok h, ok_bind, pure_eq_ok, wire, wireNode,
    length_cons, length_append, Nat.add_comm s.length]

/-- What the Go encoder writes, from any log with room for the strings of the value, is in the format
that C reads. -/
theorem encodeWithRef_reads (float64 : ℤ → UInt64) : ∀ (v : Value) (ref : ReferenceLog), Within v →
    ref.strings.length + stringCount v ≤ stringRefSize →
    ∃ bs strings, encodeWithRef float64 (toGo v) ref = .ok (⟨bs.length, bs⟩, { ref with strings := strings }) ∧
      Items ref.strings bs [seen v] strings ∧ strings.length ≤ ref.strings.length + stringCount v := by
  refine value_induction (Q := fun vs => ∀ ref, WithinAll vs →
    ref.strings.length + stringCounts vs ≤ stringRefSize →
    ∃ bs strings, encodeElements float64 (toGos vs) ref = .ok (⟨bs.length, bs⟩, { ref with strings := strings }) ∧
      Items ref.strings bs (seens vs) strings ∧ strings.length ≤ ref.strings.length + stringCounts vs)
    ?_ ?_ ?_ ?_ ?_ ?_ ?_ ?_
  · intro ref _ _
    exact ⟨_, ref.strings, rfl, Leaf.null.items, Nat.le_add_right _ _⟩
  · intro b ref _ _
    cases b with
    | false => exact ⟨_, ref.strings, rfl, Leaf.false.items, Nat.le_add_right _ _⟩
    | true => exact ⟨_, ref.strings, rfl, Leaf.true.items, Nat.le_add_right _ _⟩
  · intro i ref h _
    simp only [Within] at h
    refine ⟨_, ref.strings, ?_, (Leaf.integer (isU29_u29 (goBits_le h))).items, Nat.le_add_right _ _⟩
    rw [toGo, encodeWithRef, encodeInt_ok h, ok_bind]
    rfl
  · intro s ref h hroom
    simp only [Within] at h
    simp only [stringCount] at hroom ⊢
    obtain ⟨bs, strings, hencode, hleaf, hlen⟩ := encodeString_reads h ref (by omega)
    exact ⟨bs, strings, hencode, hleaf.items, hlen⟩
  · intro s ref h _
    simp only [Within] at h
    refine ⟨_, ref.strings, ?_, (Leaf.byteArray (isU29_u29 h) (by omega)).items, Nat.le_add_right _ _⟩
    rw [toGo, encodeWithRef, encodeByteArray_ok h, ok_bind]
    rfl
  · intro vs ih ref h hroom
    simp only [Within] at h
    simp only [stringCount] at hroom ⊢
    obtain ⟨bs, strings, hencode, hitems, hlen⟩ := ih ref h.2 hroom
    have hheader := isU29_u29 h.1
    rw [← seens_length] at hheader
    have hnot : ¬ 0x1FFFFFFF < 2 * vs.length + 1 := Nat.not_lt.mpr h.1
    refine ⟨_, strings, ?_, Items.wrap hheader hitems, hlen⟩
    simp only [toGo, encodeWithRef, toGos_length, sizeHeader_eq h.1, hnot, if_false, encodeU29_ok h.1, ok_bind, hencode,
      pure_eq_ok, seens_length, length_cons, length_append]
    congr 3
    omega
  · intro ref _ _
    exact ⟨[], ref.strings, rfl, .nil _, Nat.le_add_right _ _⟩
  · intro v vs ihv ihs ref h hroom
    simp only [WithinAll] at h
    simp only [stringCounts] at hroom ⊢
    obtain ⟨bs, strings, hencode, hitems, hlen⟩ := ihv ref h.1 (by omega)
    obtain ⟨bs', strings', hencode', hitems', hlen'⟩ := ihs { ref with strings := strings } h.2 (by simp only; omega)
    refine ⟨bs ++ bs', strings', ?_, hitems.append hitems', ?_⟩
    · rw [toGos, encodeElements, hencode, ok_bind]
      simp only
      rw [hencode', ok_bind, length_append]
      rfl
    · simp only at hlen'
      omega

theorem ofC_seen_iff : ∀ v : Value, Within v → (ofC (seen v) = some v ↔ NonNegative v) := by
  refine value_induction (Q := fun vs => WithinAll vs →
    (ofCs ((seens vs).map some) = some vs ↔ NonNegativeAll vs)) ?_ ?_ ?_ ?_ ?_ ?_ ?_ ?_
  · exact fun _ => ⟨fun _ => trivial, fun _ => rfl⟩
  · intro b _
    refine ⟨fun _ => trivial, fun _ => ?_⟩
    cases b with
    | false => rfl
    | true => rfl
  · intro i h
    simp only [Within] at h
    have hbits := goBits_le h
    rw [u29Max] at hbits
    have hword : (UInt32.ofNat (goBits i)).toNat = goBits i := by
      rw [UInt32.toNat_ofNat']
      omega
    simp only [seen, ofC, hword, some.injEq, Value.integer.injEq, NonNegative]
    exact goBits_eq_iff h
  · exact fun s _ => ⟨fun _ => trivial, fun _ => rfl⟩
  · exact fun s _ => ⟨fun _ => trivial, fun _ => rfl⟩
  · intro vs ih h
    simp only [Within] at h
    simp only [seen, ofC, NonNegative, ← ih h.2]
    cases ofCs ((seens vs).map some) with
    | none => simp only [map_none, reduceCtorEq]
    | some vs' => simp only [map_some, some.injEq, Value.array.injEq]
  · exact fun _ => ⟨fun _ => trivial, fun _ => rfl⟩
  · intro v vs ihv ihs h
    simp only [WithinAll] at h
    simp only [seens, map_cons, ofCs, NonNegativeAll, ← ihv h.1, ← ihs h.2]
    cases ofC (seen v) with
    | none => simp only [bind_none, reduceCtorEq, false_and]
    | some v' =>
      cases ofCs ((seens vs).map some) with
      | none => simp only [bind_some, map_none, reduceCtorEq, and_false]
      | some vs' => simp only [bind_some, map_some, some.injEq, cons.injEq]

theorem readByC_iff {v : Value} (h : Within v) (hstrings : stringCount v ≤ stringRefSize) :
    ReadByC v ↔ NonNegative v := by
  have hwrite : ∀ float64, ∃ w, Encode float64 (toGo v) = .ok w ∧ w.n = w.bytes.length ∧
      ∀ stale beyond trailing, amfRead stale beyond (w.bytes ++ trailing) = .ok (some (seen v, w.n)) := by
    intro float64
    obtain ⟨bs, strings, hencode, hitems, hlen⟩ := encodeWithRef_reads float64 v {} h
      (by simpa only [length_nil, Nat.zero_add] using hstrings)
    simp only [length_nil, Nat.zero_add] at hlen
    refine ⟨⟨bs.length, bs⟩, ?_, rfl, fun stale beyond trailing => ?_⟩
    · rw [Encode, hencode, ok_bind]
      rfl
    · exact hitems.amfRead (le_trans hlen hstrings) trailing stale beyond
  rw [← ofC_seen_iff v h]
  constructor
  · intro hread
    obtain ⟨w, hencode, -, hseen⟩ := hwrite fun _ => 0
    obtain ⟨w', hencode', -, hvalue⟩ := hread fun _ => 0
    obtain rfl : w = w' := ok_unique hencode hencode'
    obtain ⟨value, hamf, hof⟩ := hvalue ⟨0, 0⟩ (fun _ => 0) []
    rw [hseen] at hamf
    simp only [Except.ok.injEq, some.injEq, Prod.mk.injEq, and_true] at hamf
    rwa [hamf]
  · intro hof float64
    obtain ⟨w, hencode, hn, hseen⟩ := hwrite float64
    exact ⟨w, hencode, hn, fun stale beyond trailing => ⟨_, hseen stale beyond trailing, hof⟩⟩

/-! ## C writes, Go reads -/

theorem toCs_length (vs : List Value) : (toCs vs).length = vs.length := by
  induction vs with
  | nil => rfl
  | cons v vs ih => rw [toCs, length_cons, length_cons, ih]

theorem encodable_toC : ∀ v : Value, Within v → Framework.Encodable (some (toC v)) := by
  refine value_induction (Q := fun vs => WithinAll vs → EncodableChildren (toCs vs)) ?_ ?_ ?_ ?_ ?_ ?_ ?_ ?_
  · exact fun _ => trivial
  · intro b _
    cases b with
    | false => trivial
    | true => trivial
  · intro i h
    simp only [Within] at h
    rw [toC]
    split
    · have hint : (Int32.ofInt i).toInt = i := Int32.toInt_ofInt_of_le (by omega) (by omega)
      simp only [Framework.Encodable, EncodableNode, hint]
      omega
    · trivial
  · exact fun s h => h
  · exact fun s h => h
  · intro vs ih h
    simp only [Within] at h
    simp only [toC, Framework.Encodable, EncodableNode, toCs_length]
    exact ⟨h.1, ih h.2⟩
  · exact fun _ => trivial
  · intro v vs ihv ihs h
    simp only [WithinAll] at h
    simp only [toCs, EncodableChildren]
    exact ⟨ihv h.1, ihs h.2⟩

theorem decodeLogged_inline {header s : List UInt8} (h : IsU29 header (2 * s.length + 1)) (log : List (List UInt8))
    (r : Reader) : decodeLogged log (header ++ s ++ r) = .ok (s, r, log ++ [s]) := by
  have hodd : ¬ (2 * s.length + 1) % 2 = 0 := by omega
  have hhalf : (2 * s.length + 1) / 2 = s.length := by omega
  have hfull : readFull s.length (s ++ r) = .ok (s, r) := by
    rw [readFull, if_pos (by rw [length_append]; omega), take_left, drop_left]
  rw [decodeLogged, append_assoc, decodeU29_complete h, ok_bind]
  simp only [hodd, if_false, hhalf, hfull, ok_bind, pure_eq_ok]

theorem decodeWithRef_wire : ∀ (v : Value) (ref : ReferenceLog) (r : Reader) (fuel : ℕ), Within v → NonNegative v →
    (wire (some (toC v))).length < fuel →
    ∃ ref', decodeWithRef fuel ref (wire (some (toC v)) ++ r) = .ok (toGo v, r, ref') := by
  refine value_induction (Q := fun vs => ∀ (ref : ReferenceLog) (r : Reader) (fuel : ℕ), WithinAll vs →
    NonNegativeAll vs → (wireChildren (toCs vs)).length < fuel →
    ∃ ref', decodeElements (decodeWithRef fuel) vs.length ref (wireChildren (toCs vs) ++ r) =
      .ok (toGos vs, r, ref')) ?_ ?_ ?_ ?_ ?_ ?_ ?_ ?_
  · intro ref r fuel _ _ hfuel
    obtain ⟨fuel, rfl⟩ := exists_succ_of_lt hfuel
    exact ⟨ref, rfl⟩
  · intro b ref r fuel _ _ hfuel
    obtain ⟨fuel, rfl⟩ := exists_succ_of_lt hfuel
    cases b with
    | false => exact ⟨ref, rfl⟩
    | true => exact ⟨ref, rfl⟩
  · intro i ref r fuel h hpos hfuel
    simp only [Within] at h
    simp only [NonNegative] at hpos
    obtain ⟨fuel, rfl⟩ := exists_succ_of_lt hfuel
    have hword : (UInt32.ofNat i.toNat).toNat = i.toNat := by
      rw [UInt32.toNat_ofNat']
      omega
    have hsmall : ¬ amfIntegerMax < i.toNat := by
      rw [amfIntegerMax]
      omega
    have hle : i.toNat ≤ u29Max := Nat.not_lt.mp hsmall
    have hwire : wire (some (toC (.integer i))) = amfCode .integer :: u29 i.toNat := by
      rw [toC, if_neg (Int.not_lt.mpr hpos), wire, wireNode, hword, if_neg hsmall]
    have hdecode : decodeInteger (u29 i.toNat ++ r) = .ok (i, r) := by
      rw [decodeInteger, decodeU29_complete (isU29_u29 hle)]
      simp only [Int.toNat_of_nonneg hpos]
    refine ⟨ref, ?_⟩
    rw [hwire, cons_append, decodeWithRef, amfTypeOf_code]
    simp only [hdecode, ok_bind, pure_eq_ok, toGo]
  · intro s ref r fuel h _ hfuel
    simp only [Within] at h
    obtain ⟨fuel, rfl⟩ := exists_succ_of_lt hfuel
    refine ⟨{ ref with strings := ref.strings ++ [s] }, ?_⟩
    rw [toC, wire, wireNode, cons_append, decodeWithRef, amfTypeOf_code]
    simp only [decodeString, decodeLogged_inline (isU29_u29 h), ok_bind, pure_eq_ok, toGo]
  · intro s ref r fuel h _ hfuel
    simp only [Within] at h
    obtain ⟨fuel, rfl⟩ := exists_succ_of_lt hfuel
    refine ⟨{ ref with bytes := ref.bytes ++ [s] }, ?_⟩
    rw [toC, wire, wireNode, cons_append, decodeWithRef, amfTypeOf_code]
    simp only [decodeByteArray, decodeLogged_inline (isU29_u29 h), ok_bind, pure_eq_ok, toGo]
  · intro vs ih ref r fuel h hpos hfuel
    simp only [Within] at h
    simp only [NonNegative] at hpos
    rw [toC, wire_array_length] at hfuel
    simp only [length_cons] at hfuel
    obtain ⟨fuel, rfl⟩ := exists_succ_of_lt hfuel
    obtain ⟨ref', hdecode⟩ := ih ref r fuel h.2 hpos (by omega)
    have hhalf : (2 * vs.length + 1) / 2 = vs.length := by omega
    refine ⟨ref', ?_⟩
    rw [toC, wire, wireNode, cons_append, cons_append, decodeWithRef, amfTypeOf_code]
    simp only [decodeArray, toCs_length, append_assoc, decodeU29_complete (isU29_u29 h.1), ok_bind,
      cons_append, nil_append, hhalf, hdecode, pure_eq_ok, toGo]
  · exact fun ref r fuel _ _ _ => ⟨ref, rfl⟩
  · intro v vs ihv ihs ref r fuel h hpos hfuel
    simp only [WithinAll] at h
    simp only [NonNegativeAll] at hpos
    simp only [toCs, wireChildren, length_append] at hfuel ⊢
    obtain ⟨ref₁, hdecode₁⟩ := ihv ref (wireChildren (toCs vs) ++ r) fuel h.1 hpos.1 (by omega)
    obtain ⟨ref₂, hdecode₂⟩ := ihs ref₁ r fuel h.2 hpos.2 (by omega)
    refine ⟨ref₂, ?_⟩
    rw [length_cons, decodeElements, append_assoc, hdecode₁, ok_bind]
    simp only
    rw [hdecode₂, ok_bind, pure_eq_ok, toGos]

theorem ofGo_toGo : ∀ v : Value, ofGo (toGo v) = some v := by
  refine value_induction (Q := fun vs => ofGos (toGos vs) = some vs) ?_ ?_ ?_ ?_ ?_ ?_ ?_ ?_
  · rfl
  · exact fun _ => rfl
  · exact fun _ => rfl
  · exact fun _ => rfl
  · exact fun _ => rfl
  · intro vs ih
    rw [toGo, ofGo, ih, map_some]
  · rfl
  · intro v vs ihv ihs
    rw [toGos, ofGos, ihv, ihs, bind_some, map_some]

theorem readByGo_of_nonNegative {v : Value} (h : Within v) (hpos : NonNegative v) : ReadByGo v := by
  have henc := encodable_toC v h
  refine ⟨_, amfGetEncodeLength_ok _ henc, fun dlen m hdlen => ?_⟩
  refine ⟨_, _, amfEncode_complete dlen dlen _ m 0 henc hdlen (by omega), fun trailing => ?_⟩
  refine ⟨toGo v, ?_, ofGo_toGo v⟩
  obtain ⟨ref, hdecode⟩ := decodeWithRef_wire v {} trailing _ h hpos
    (show _ < (wire (some (toC v)) ++ trailing).length + 1 by rw [length_append]; omega)
  rw [slice_blit, Decode, hdecode, ok_bind]
  rfl

/-! ## The two codecs -/

/-- The two codecs agree on a value exactly where it has no negative integer. -/
theorem codecs_agree_iff (v : Value) (h : Within v) (hstrings : stringCount v ≤ stringRefSize) :
    ReadByC v ∧ ReadByGo v ↔ NonNegative v := by
  rw [readByC_iff h hstrings]
  exact ⟨And.left, fun hpos => ⟨hpos, readByGo_of_nonNegative h hpos⟩⟩

theorem codecs_agree_reference :
    ReadByC (.array [.string [65, 66], .array [.string [65, 66], .integer 0xFFFFFFF]]) ∧
      ReadByGo (.array [.string [65, 66], .array [.string [65, 66], .integer 0xFFFFFFF]]) ↔
    NonNegative (.array [.string [65, 66], .array [.string [65, 66], .integer 0xFFFFFFF]]) := by
  refine codecs_agree_iff _ ?_ (by decide)
  simp only [Within, WithinAll, u29Max, length_cons, length_nil]
  decide

/-- Go writes -1 as the integer 2^28 + 1, and reads the -1 of C as 1 - 2^28. -/
theorem codecs_disagree_negative :
    Within (.integer (-1)) ∧ ¬ ReadByC (.integer (-1)) ∧ ¬ ReadByGo (.integer (-1)) := by
  have hwithin : Within (.integer (-1)) := by
    simp only [Within]
    decide
  have henc := encodable_toC _ hwithin
  have hdecode : Decode (wire (some (toC (.integer (-1)))) ++ []) = .ok (.int (-0xFFFFFFF), []) := rfl
  refine ⟨hwithin, fun hread => ?_, fun hread => ?_⟩
  · have hpos := (readByC_iff hwithin (by decide)).mp hread
    simp only [NonNegative] at hpos
    omega
  · obtain ⟨need, hneed, hread⟩ := hread
    obtain rfl : (wire (some (toC (.integer (-1))))).length = need :=
      ok_unique (amfGetEncodeLength_ok _ henc) hneed
    obtain ⟨r, m', hencode, hvalue⟩ := hread _ (fun _ => 0) le_rfl
    rw [amfEncode_complete _ _ _ _ 0 henc le_rfl (by omega), ok_pair_iff] at hencode
    obtain ⟨value, hdec, hof⟩ := hvalue []
    rw [← hencode.1, ← hencode.2, slice_blit, hdecode] at hdec
    simp only [ok_pair_iff, and_true] at hdec
    rw [← hdec, ofGo, some.injEq, Value.integer.injEq] at hof
    omega

end CServer.Proto
