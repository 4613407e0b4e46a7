import CServer.Proto.AmfDecodeTo
import CServer.Proto.AmfAgreement

/-! # Round trips through the Go codec

What `Encode` writes of a value is read by `Decode`, which takes the type from the bytes, and by `DecodeTo`, which has to
find them right for its variable.
-/
namespace CServer.Proto
open CServer.Lib CServer.Framework List

/-! ## What is asked for -/

mutual

def Exact : GoValue → Prop
  | .int i => i.natAbs ≤ 2 ^ 53
  | .uint n => n ≤ 2 ^ 53
  | .slice vs => ExactAll vs
  | _ => True

def ExactAll : List GoValue → Prop
  | [] => True
  | v :: vs => Exact v ∧ ExactAll vs

end

mutual

/-- The value read for a value: an integer is an `int64`, or the same number as a `float64` where it is beyond 29 bits. -/
def Restored : GoValue → GoValue → Prop
  | .nil, .nil => True
  | .bool b, .bool b' => b' = b
  | .int i, .int i' => i' = i ∧ -goIntegerMax ≤ i ∧ i ≤ goIntegerMax
  | .int i, .float d => Binary64.value d = some (i : ℚ) ∧ (i < -goIntegerMax ∨ goIntegerMax < i)
  | .uint n, .int i => i = n ∧ n ≤ goIntegerMax
  | .uint n, .float d => Binary64.value d = some (n : ℚ) ∧ goIntegerMax < n
  | .float d, .float d' => d' = d
  | .string s, .string s' => s' = s
  | .bytes s, .bytes s' => s' = s
  | .slice vs, .slice vs' => RestoredAll vs vs'
  | _, _ => False

def RestoredAll : List GoValue → List GoValue → Prop
  | [], [] => True
  | v :: vs, v' :: vs' => Restored v v' ∧ RestoredAll vs vs'
  | _, _ => False

end

def RoundTrip (v : GoValue) : Prop :=
  ∃ w, Encode Binary64.ofInt v = .ok w ∧ ∃ out, Decode w.bytes = .ok (out, []) ∧ Restored v out

mutual

def GoVar.value : GoVar → GoValue
  | .bool b => .bool b
  | .int i => .int i
  | .uint n => .uint n
  | .float d => .float d
  | .string s => .string s
  | .bytes s => .bytes s
  | .array vs => .slice (values vs)
  | .slice vs => .slice (values vs)
  | .struct vs => .slice (values vs)

def values : List GoVar → List GoValue
  | [] => []
  | v :: vs => v.value :: values vs

end

mutual

/-- The variable has the type of the value, whose leaves are not floats and whose integers have 29 bits; its arrays have the
lengths that are written. -/
def Like : GoVar → GoVar → Prop
  | .bool _, .bool _ => True
  | .int _, .int i => -goIntegerMax ≤ i ∧ i ≤ goIntegerMax
  | .uint _, .uint n => n ≤ goIntegerMax
  | .string _, .string _ => True
  | .bytes _, .bytes _ => True
  | .array xs, .array vs => sizeHeader vs.length / 2 = xs.length ∧ LikeAll xs vs
  | .slice xs, .slice vs => sizeHeader vs.length / 2 = xs.length ∧ LikeAll xs vs
  | .struct xs, .struct vs => sizeHeader vs.length / 2 = xs.length ∧ LikeAll xs vs
  | _, _ => False

def LikeAll : List GoVar → List GoVar → Prop
  | [], [] => True
  | x :: xs, v :: vs => Like x v ∧ LikeAll xs vs
  | _, _ => False

end

/-- The value of a variable is restored in another one. -/
def RoundTripTo (x v : GoVar) : Prop :=
  ∃ w, Encode Binary64.ofInt v.value = .ok w ∧ DecodeTo w.bytes x = .ok (v, [])

/-! ## Where it is met -/

mutual

/-- The strings that have been written once, after a value. -/
def met : GoValue → List (List UInt8) → List (List UInt8)
  | .string s, table =>
    match table.idxOf? s with
    | some _ => table
    | none => table ++ [s]
  | .slice vs, table => metAll vs table
  | _, table => table

def metAll : List GoValue → List (List UInt8) → List (List UInt8)
  | [], table => table
  | v :: vs, table => metAll vs (met v table)

end

mutual

/-- No integer is negative but below those of 29 bits, and sizes fit: those of byte arrays, slices and strings, and for a
string that was written before its index among the strings `table`. -/
def Carried : GoValue → List (List UInt8) → Prop
  | .int i, _ => 0 ≤ i ∨ i < -goIntegerMax
  | .string s, table =>
    match table.idxOf? s with
    | some i => i < 2 ^ 28
    | none => s.length < 2 ^ 28
  | .bytes s, _ => s.length < 2 ^ 28
  | .slice vs, table => vs.length < 2 ^ 28 ∧ CarriedAll vs table
  | _, _ => True

def CarriedAll : List GoValue → List (List UInt8) → Prop
  | [], _ => True
  | v :: vs, table => Carried v table ∧ CarriedAll vs (met v table)

end

mutual

def GoVar.Positive : GoVar → Prop
  | .uint n => 0 < n
  | .array vs => PositiveAll vs
  | .slice vs => PositiveAll vs
  | .struct vs => PositiveAll vs
  | _ => True

def PositiveAll : List GoVar → Prop
  | [] => True
  | v :: vs => v.Positive ∧ PositiveAll vs

end

theorem goValue_induction {P : GoValue → Prop} {Q : List GoValue → Prop} (nil : P .nil) (bool : ∀ b, P (.bool b))
    (int : ∀ i, P (.int i)) (uint : ∀ n, P (.uint n)) (float : ∀ d, P (.float d)) (string : ∀ s, P (.string s))
    (bytes : ∀ s, P (.bytes s)) (slice : ∀ vs, Q vs → P (.slice vs)) (none : Q [])
    (cons : ∀ v vs, P v → Q vs → Q (v :: vs)) : ∀ v, P v :=
  fun v => @GoValue.rec P Q nil bool int uint float string bytes slice none cons v

/-! ## Numbers -/

theorem decodeFloat_toBytes (d : UInt64) (r : Reader) : decodeFloat (Binary64.toBytes d ++ r) = .ok (d, r) := by
  have hfull : readFull 8 (Binary64.toBytes d ++ r) = .ok (Binary64.toBytes d, r) := by
    have hlen := Binary64.toBytes_length d
    rw [readFull, if_pos (by rw [length_append]; omega), take_left' hlen, drop_left' hlen]
  rw [decodeFloat, hfull, ok_bind]
  simp only [Binary64.ofBytes_toBytes, pure_eq_ok]

theorem decodeInteger_u29 {n : ℕ} (h : n ≤ u29Max) (r : Reader) : decodeInteger (u29 n ++ r) = .ok ((n : ℤ), r) := by
  rw [decodeInteger, decodeU29_complete (isU29_u29 h)]

theorem encodeInt_float {i : ℤ} (h : i < -goIntegerMax ∨ goIntegerMax < i) :
    encodeInt Binary64.ofInt i = .ok (encodeFloat (Binary64.ofInt i)) := by
  rw [encodeInt, if_pos h.symm]

theorem encodeUint_ok {n : ℕ} (h : (n : ℤ) ≤ goIntegerMax) :
    encodeUint Binary64.ofInt n = .ok ⟨(u29 n).length + 1, amfCode .integer :: u29 n⟩ := by
  have hle : n ≤ u29Max := by
    rw [goIntegerMax] at h
    rw [u29Max]
    omega
  rw [encodeUint, if_neg (not_lt.mpr h), encodeU29_ok hle, ok_bind, pure_eq_ok]

theorem readFull_length {l : ℕ} {r r' : Reader} {bs : List UInt8} (h : readFull l r = .ok (bs, r')) : bs.length = l := by
  unfold readFull at h
  split_ifs at h with hl
  obtain ⟨rfl, -⟩ := ok_pair_inj h
  rw [length_take]
  omega

theorem decodeLogged_length {l : ℕ} (hl : l ≤ u29Max) (hodd : ¬ l % 2 = 0) {log log' : List (List UInt8)} {r r' : Reader}
    {s : List UInt8} (h : decodeLogged log (u29 l ++ r) = .ok (s, r', log')) : s.length = l / 2 := by
  rw [decodeLogged, decodeU29_complete (isU29_u29 hl), ok_bind] at h
  simp only [hodd, if_false] at h
  obtain ⟨⟨bs, r₁⟩, hfull, hrest⟩ := bind_ok_iff.mp h
  rw [pure_eq_ok, ok_pair_iff] at hrest
  rw [← hrest.1]
  exact readFull_length hfull

theorem decodeLogged_ref {i : ℕ} (hi : 2 * i ≤ u29Max) (log : List (List UInt8)) (r : Reader) :
    decodeLogged log (u29 (2 * i) ++ r) =
      if 0 < log.length then
        match log[i]? with
        | some s => .ok (s, r, log)
        | none => .error .panic
      else .error .reference := by
  have heven : 2 * i % 2 = 0 := by omega
  have hhalf : 2 * i / 2 = i := by omega
  rw [decodeLogged, decodeU29_complete (isU29_u29 hi), ok_bind]
  simp only [heven, if_true, hhalf]
  rfl

/-! ## Strings and byte arrays -/

theorem sizeHeader_small {n : ℕ} (h : n < 2 ^ 28) : sizeHeader n = 2 * n + 1 ∧ 2 * n + 1 ≤ u29Max := by
  rw [sizeHeader, u29Max]
  omega

theorem sizeHeader_large {n : ℕ} (h : ¬ n < 2 ^ 28) (hle : sizeHeader n ≤ u29Max) : sizeHeader n / 2 ≠ n := by
  rw [u29Max] at hle
  omega

theorem sizeHeader_odd (n : ℕ) : ¬ sizeHeader n % 2 = 0 := by
  rw [sizeHeader]
  omega

section Leaves
variable {s : List UInt8} {ref : ReferenceLog} {w : Wrote}

theorem encodeByteArray_carried (h : s.length < 2 ^ 28) : ∃ n body, encodeByteArray s = .ok ⟨n, amfCode .byteArray :: body⟩ ∧
    ∀ log r, ∃ bytes, decodeByteArray log (body ++ r) = .ok (s, r, { log with bytes }) := by
  obtain ⟨hsize, hle⟩ := sizeHeader_small h
  refine ⟨s.length + (u29 (2 * s.length + 1)).length + 1, u29 (2 * s.length + 1) ++ s, ?_,
    fun log r => ⟨log.bytes ++ [s], ?_⟩⟩
  · have hnot : ¬ 0x1FFFFFFF < 2 * s.length + 1 := Nat.not_lt.mpr hle
    simp only [encodeByteArray, hsize, hnot, if_false, encodeU29_ok hle, ok_bind, pure_eq_ok]
  · rw [decodeByteArray, decodeLogged_inline (isU29_u29 hle), ok_bind]
    rfl

theorem encodeByteArray_lost (h : ¬ s.length < 2 ^ 28) (hw : encodeByteArray s = .ok w) :
    ∃ body, w.bytes = amfCode .byteArray :: body ∧
      ∀ log r s' r' log', decodeByteArray log (body ++ r) = .ok (s', r', log') → s' ≠ s := by
  unfold encodeByteArray at hw
  dsimp only at hw
  split_ifs at hw with hlarge
  have hle : sizeHeader s.length ≤ u29Max := Nat.not_lt.mp hlarge
  rw [encodeU29_ok hle, ok_bind, pure_eq_ok] at hw
  obtain rfl := Except.ok.inj hw
  refine ⟨_, rfl, fun log r s' r' log' hdecode hs => ?_⟩
  rw [append_assoc] at hdecode
  obtain ⟨⟨s₁, r₁, bytes⟩, hlogged, hrest⟩ := bind_ok_iff.mp hdecode
  obtain ⟨rfl, -⟩ := ok_pair_inj hrest
  have hlen := decodeLogged_length hle (sizeHeader_odd _) hlogged
  rw [hs] at hlen
  exact sizeHeader_large h hle hlen.symm

theorem encodeString_carried (h : Carried (.string s) ref.strings) :
    ∃ n body, encodeString s ref =
        .ok (⟨n, amfCode .string :: body⟩, { ref with strings := met (.string s) ref.strings }) ∧
      ∀ log r, log.strings = ref.strings →
        decodeString log (body ++ r) = .ok (s, r, { log with strings := met (.string s) ref.strings }) := by
  rw [Carried] at h
  rw [encodeString, met]
  cases hi : ref.strings.idxOf? s with
  | some i =>
    rw [hi] at h
    dsimp only at h ⊢
    obtain ⟨hlt, hget, -⟩ := List.idxOf?_eq_some_iff.mp hi
    have hindex : 2 * (i % 2 ^ 32) % 2 ^ 32 = 2 * i := by omega
    have hle : 2 * i ≤ u29Max := by
      rw [u29Max]
      omega
    have hnot : ¬ 0x1FFFFFFF < 2 * i := Nat.not_lt.mpr hle
    refine ⟨_, u29 (2 * i), by rw [hindex, if_neg hnot, encodeU29_ok hle, ok_bind, pure_eq_ok], fun log r hlog => ?_⟩
    have hread : decodeLogged log.strings (u29 (2 * i) ++ r) = .ok (s, r, ref.strings) := by
      rw [decodeLogged_ref hle, hlog, if_pos (Nat.zero_lt_of_lt hlt), List.getElem?_eq_getElem hlt, hget]
    rw [decodeString, hread, ok_bind]
    rfl
  | none =>
    rw [hi] at h
    dsimp only at h ⊢
    obtain ⟨hsize, hle⟩ := sizeHeader_small h
    have hnot : ¬ 0x1FFFFFFF < 2 * s.length + 1 := Nat.not_lt.mpr hle
    refine ⟨s.length + (u29 (2 * s.length + 1)).length + 1, u29 (2 * s.length + 1) ++ s, ?_, fun log r hlog => ?_⟩
    · rw [hsize, if_neg hnot, encodeU29_ok hle, ok_bind, pure_eq_ok]
    · rw [decodeString, decodeLogged_inline (isU29_u29 hle), ok_bind, hlog]
      rfl

theorem encodeString_lost {ref' : ReferenceLog} (h : ¬ Carried (.string s) ref.strings)
    (hw : encodeString s ref = .ok (w, ref')) :
    ∃ body, w.bytes = amfCode .string :: body ∧ ∀ log r s' r' log', log.strings = ref.strings →
      decodeString log (body ++ r) = .ok (s', r', log') → s' ≠ s := by
  rw [Carried] at h
  rw [encodeString] at hw
  cases hi : ref.strings.idxOf? s with
  | some i =>
    rw [hi] at h hw
    dsimp only at h hw
    split_ifs at hw with hlarge
    have hle : 2 * (i % 2 ^ 32) % 2 ^ 32 ≤ u29Max := Nat.not_lt.mp hlarge
    rw [encodeU29_ok hle, ok_bind, pure_eq_ok] at hw
    obtain ⟨rfl, rfl⟩ := ok_pair_inj hw
    refine ⟨_, rfl, fun log r s' r' log' hlog hdecode hs => ?_⟩
    -- the index that is written is that of an earlier string, which is another one
    obtain ⟨hlt, -, hbefore⟩ := List.idxOf?_eq_some_iff.mp hi
    obtain ⟨j, hj, hji⟩ : ∃ j, 2 * (i % 2 ^ 32) % 2 ^ 32 = 2 * j ∧ j < i := by
      refine ⟨i % 2 ^ 31, by omega, ?_⟩
      rw [u29Max] at hle
      omega
    rw [hj] at hdecode hle
    obtain ⟨⟨s₁, r₁, strings⟩, hlogged, hrest⟩ := bind_ok_iff.mp hdecode
    obtain ⟨rfl, -⟩ := ok_pair_inj hrest
    rw [decodeLogged_ref hle, hlog, if_pos (Nat.zero_lt_of_lt hlt), List.getElem?_eq_getElem (hji.trans hlt)] at hlogged
    obtain ⟨hget, -⟩ := ok_pair_inj hlogged
    exact absurd (hget.trans hs) (by simpa using hbefore j hji)
  | none =>
    rw [hi] at h hw
    dsimp only at h hw
    split_ifs at hw with hlarge
    have hle : sizeHeader s.length ≤ u29Max := Nat.not_lt.mp hlarge
    rw [encodeU29_ok hle, ok_bind, pure_eq_ok] at hw
    obtain ⟨rfl, rfl⟩ := ok_pair_inj hw
    refine ⟨_, rfl, fun log r s' r' log' hlog hdecode hs => ?_⟩
    rw [append_assoc] at hdecode
    obtain ⟨⟨s₁, r₁, strings⟩, hlogged, hrest⟩ := bind_ok_iff.mp hdecode
    obtain ⟨rfl, -⟩ := ok_pair_inj hrest
    have hlen := decodeLogged_length hle (sizeHeader_odd _) hlogged
    rw [hs] at hlen
    exact sizeHeader_large h hle hlen.symm

end Leaves

/-! ## Slices -/

section Slices
variable {vs : List GoValue} {ref ref' : ReferenceLog} {w : Wrote}

theorem encodeSlice_ok (h : vs.length < 2 ^ 28) (hw : encodeElements Binary64.ofInt vs ref = .ok (w, ref')) :
    ∃ n, encodeWithRef Binary64.ofInt (.slice vs) ref =
      .ok (⟨n, amfCode .array :: (u29 (2 * vs.length + 1) ++ 0x01 :: w.bytes)⟩, ref') := by
  obtain ⟨hsize, hle⟩ := sizeHeader_small h
  have hnot : ¬ 0x1FFFFFFF < 2 * vs.length + 1 := Nat.not_lt.mpr hle
  refine ⟨(u29 (2 * vs.length + 1)).length + 2 + w.n, ?_⟩
  simp only [encodeWithRef, hsize, hnot, if_false, encodeU29_ok hle, ok_bind, hw, pure_eq_ok]

theorem encodeSlice_inv (h : encodeWithRef Binary64.ofInt (.slice vs) ref = .ok (w, ref')) :
    sizeHeader vs.length ≤ u29Max ∧ ∃ w', encodeElements Binary64.ofInt vs ref = .ok (w', ref') ∧
      w.bytes = amfCode .array :: (u29 (sizeHeader vs.length) ++ 0x01 :: w'.bytes) := by
  rw [encodeWithRef] at h
  dsimp only at h
  split_ifs at h with hlarge
  have hle : sizeHeader vs.length ≤ u29Max := Nat.not_lt.mp hlarge
  rw [encodeU29_ok hle, ok_bind] at h
  obtain ⟨⟨w', ref₁⟩, hw', hrest⟩ := bind_ok_iff.mp h
  obtain ⟨rfl, rfl⟩ := ok_pair_inj hrest
  exact ⟨hle, w', hw', rfl⟩

theorem encodeElements_inv {v : GoValue} (h : encodeElements Binary64.ofInt (v :: vs) ref = .ok (w, ref')) :
    ∃ w₁ ref₁ w₂, encodeWithRef Binary64.ofInt v ref = .ok (w₁, ref₁) ∧
      encodeElements Binary64.ofInt vs ref₁ = .ok (w₂, ref') ∧ w.bytes = w₁.bytes ++ w₂.bytes := by
  rw [encodeElements] at h
  obtain ⟨⟨w₁, ref₁⟩, h₁, h⟩ := bind_ok_iff.mp h
  obtain ⟨⟨w₂, ref₂⟩, h₂, hrest⟩ := bind_ok_iff.mp h
  obtain ⟨rfl, rfl⟩ := ok_pair_inj hrest
  exact ⟨w₁, ref₁, w₂, h₁, h₂, rfl⟩

variable {decode : ReferenceLog → Reader → Except GoError (Next GoValue)}

theorem decodeElements_inv {l : ℕ} {log log' : ReferenceLog}
    {r r' : Reader} {outs : List GoValue} (h : decodeElements decode (l + 1) log r = .ok (outs, r', log')) :
    ∃ out r₁ log₁ rest, decode log r = .ok (out, r₁, log₁) ∧ decodeElements decode l log₁ r₁ = .ok (rest, r', log') ∧
      outs = out :: rest := by
  rw [decodeElements] at h
  obtain ⟨⟨out, r₁, log₁⟩, h₁, h⟩ := bind_ok_iff.mp h
  obtain ⟨⟨rest, r₂, log₂⟩, h₂, hrest⟩ := bind_ok_iff.mp h
  simp only [pure_eq_ok, ok_pair_iff] at hrest
  obtain ⟨rfl, rfl, rfl⟩ := hrest
  exact ⟨out, r₁, log₁, rest, h₁, h₂, rfl⟩

theorem decodeElements_length (l : ℕ) :
    ∀ {log log' : ReferenceLog} {r r' : Reader} {outs : List GoValue},
      decodeElements decode l log r = .ok (outs, r', log') → outs.length = l := by
  induction l with
  | zero =>
    intro log log' r r' outs h
    obtain ⟨rfl, -⟩ := ok_pair_inj h
    rfl
  | succ l ih =>
    intro log log' r r' outs h
    obtain ⟨out, r₁, log₁, rest, -, hrest, rfl⟩ := decodeElements_inv h
    rw [length_cons, ih hrest]

theorem restoredAll_length (vs : List GoValue) : ∀ {outs : List GoValue}, RestoredAll vs outs → outs.length = vs.length := by
  induction vs with
  | nil =>
    intro outs h
    cases outs with
    | nil => rfl
    | cons out outs => exact h.elim
  | cons v vs ih =>
    intro outs h
    cases outs with
    | nil => exact h.elim
    | cons out outs => rw [length_cons, length_cons, ih h.2]

end Slices

/-! ## `Decode` -/

/-- What was written is read as a value of `P`, with a log that has the strings `table`, exactly if it is carried. -/
def ReadAs {α : Type} (out : Except GoError (Next α)) (P : α → Prop) (r : Reader) (table : List (List UInt8))
    (carried : Prop) : Prop :=
  (carried ∧ ∃ u log, out = .ok (u, r, log) ∧ log.strings = table ∧ P u) ∨
    (¬ carried ∧ ∀ u r' log, out = .ok (u, r', log) → ¬ P u)

theorem readAs_value {α : Type} {P : α → Prop} {u : α} {r : Reader} {log : ReferenceLog} {table : List (List UInt8)}
    {carried : Prop} (h : P u ↔ carried) (hlog : log.strings = table) : ReadAs (.ok (u, r, log)) P r table carried := by
  by_cases hu : P u
  · exact .inl ⟨h.mp hu, u, log, rfl, hlog, hu⟩
  · refine .inr ⟨fun hc => hu (h.mpr hc), fun u' r' log' he => ?_⟩
    rwa [← (ok_pair_inj he).1]

theorem decodeWithRef_integer {n : ℕ} (h : n ≤ u29Max) (fuel : ℕ) (log : ReferenceLog) (r : Reader) :
    decodeWithRef (fuel + 1) log (amfCode .integer :: (u29 n ++ r)) = .ok (.int n, r, log) := by
  rw [decodeWithRef, amfTypeOf_code]
  simp only [decodeInteger_u29 h, ok_bind, pure_eq_ok]

theorem decodeWithRef_double (d : UInt64) (fuel : ℕ) (log : ReferenceLog) (r : Reader) :
    decodeWithRef (fuel + 1) log (amfCode .double :: (Binary64.toBytes d ++ r)) = .ok (.float d, r, log) := by
  rw [decodeWithRef, amfTypeOf_code]
  simp only [decodeFloat_toBytes, ok_bind, pure_eq_ok]

theorem decodeWithRef_slice {n l : ℕ} (h : n ≤ u29Max) (hl : n / 2 = l) (fuel : ℕ) (log : ReferenceLog) (body r : List UInt8) :
    decodeWithRef (fuel + 1) log (amfCode .array :: (u29 n ++ 0x01 :: body) ++ r) = (do
      let (vs, r, log) ← decodeElements (decodeWithRef fuel) l log (body ++ r)
      return (.slice vs, r, log)) := by
  subst hl
  rw [cons_append, decodeWithRef, amfTypeOf_code]
  simp only [decodeArray, append_assoc, cons_append, decodeU29_complete (isU29_u29 h), ok_bind]

/-- What is carried is written, and its strings are in the log then. -/
theorem encode_ok : ∀ (v : GoValue) (ref : ReferenceLog), Carried v ref.strings →
    ∃ w, encodeWithRef Binary64.ofInt v ref = .ok (w, { ref with strings := met v ref.strings }) := by
  refine goValue_induction (Q := fun vs => ∀ ref, CarriedAll vs ref.strings →
    ∃ w, encodeElements Binary64.ofInt vs ref = .ok (w, { ref with strings := metAll vs ref.strings }))
    ?_ ?_ ?_ ?_ ?_ ?_ ?_ ?_ ?_ ?_
  · exact fun ref _ => ⟨_, rfl⟩
  · exact fun b ref _ => ⟨_, rfl⟩
  · intro i ref _
    rw [encodeWithRef]
    by_cases hlarge : i < -goIntegerMax ∨ goIntegerMax < i
    · rw [encodeInt_float hlarge]
      exact ⟨_, rfl⟩
    · rw [not_or, not_lt, not_lt] at hlarge
      rw [encodeInt_ok hlarge]
      exact ⟨_, rfl⟩
  · intro n ref _
    rw [encodeWithRef]
    by_cases hlarge : goIntegerMax < n
    · rw [encodeUint, if_pos hlarge]
      exact ⟨_, rfl⟩
    · rw [encodeUint_ok (not_lt.mp hlarge)]
      exact ⟨_, rfl⟩
  · exact fun d ref _ => ⟨_, rfl⟩
  · intro s ref h
    obtain ⟨n, body, hencode, -⟩ := encodeString_carried h
    exact ⟨_, by rw [encodeWithRef, hencode]⟩
  · intro s ref h
    obtain ⟨n, body, hencode, -⟩ := encodeByteArray_carried h
    exact ⟨_, by rw [encodeWithRef, hencode]; rfl⟩
  · intro vs ih ref h
    rw [Carried] at h
    obtain ⟨w, hw⟩ := ih ref h.2
    obtain ⟨n, hencode⟩ := encodeSlice_ok h.1 hw
    exact ⟨_, hencode⟩
  · exact fun ref _ => ⟨⟨0, []⟩, rfl⟩
  · intro v vs ihv ihs ref h
    rw [CarriedAll] at h
    obtain ⟨w₁, hw₁⟩ := ihv ref h.1
    obtain ⟨w₂, hw₂⟩ := ihs { ref with strings := met v ref.strings } h.2
    refine ⟨⟨w₁.n + w₂.n, w₁.bytes ++ w₂.bytes⟩, ?_⟩
    rw [encodeElements, hw₁, ok_bind]
    simp only [hw₂, ok_bind, pure_eq_ok, metAll]

theorem encode_met {v : GoValue} {ref ref' : ReferenceLog} {w : Wrote} (h : Carried v ref.strings)
    (hw : encodeWithRef Binary64.ofInt v ref = .ok (w, ref')) : ref'.strings = met v ref.strings := by
  obtain ⟨w₁, hw₁⟩ := encode_ok v ref h
  obtain ⟨rfl, rfl⟩ := ok_pair_inj (hw₁.symm.trans hw)
  rfl

theorem goBits_carried {i : ℤ} (h : 0 ≤ i) : (goBits i : ℤ) = i := by
  rw [goBits, if_pos h, Int.toNat_of_nonneg h]

theorem decode_written : ∀ (v : GoValue) (ref ref' : ReferenceLog) (w : Wrote), Exact v →
    encodeWithRef Binary64.ofInt v ref = .ok (w, ref') → ∀ fuel log r, log.strings = ref.strings → w.bytes.length ≤ fuel →
    ReadAs (decodeWithRef (fuel + 1) log (w.bytes ++ r)) (Restored v) r ref'.strings (Carried v ref.strings) := by
  refine goValue_induction (Q := fun vs => ∀ ref ref' w, ExactAll vs →
    encodeElements Binary64.ofInt vs ref = .ok (w, ref') → ∀ fuel log r, log.strings = ref.strings → w.bytes.length ≤ fuel →
    ReadAs (decodeElements (decodeWithRef (fuel + 1)) vs.length log (w.bytes ++ r)) (RestoredAll vs) r ref'.strings
      (CarriedAll vs ref.strings)) ?_ ?_ ?_ ?_ ?_ ?_ ?_ ?_ ?_ ?_
  · intro ref ref' w _ hw fuel log r hlog _
    obtain ⟨rfl, rfl⟩ := ok_pair_inj hw
    exact .inl ⟨trivial, .nil, log, rfl, hlog, trivial⟩
  · intro b ref ref' w _ hw fuel log r hlog _
    obtain ⟨rfl, rfl⟩ := ok_pair_inj hw
    cases b with
    | false => exact .inl ⟨trivial, .bool false, log, rfl, hlog, rfl⟩
    | true => exact .inl ⟨trivial, .bool true, log, rfl, hlog, rfl⟩
  · intro i ref ref' w hexact hw fuel log r hlog _
    rw [Exact] at hexact
    rw [Carried]
    by_cases hlarge : i < -goIntegerMax ∨ goIntegerMax < i
    · rw [encodeWithRef, encodeInt_float hlarge, ok_bind, pure_eq_ok] at hw
      obtain ⟨rfl, rfl⟩ := ok_pair_inj hw
      have hcarried : 0 ≤ i ∨ i < -goIntegerMax := by
        rw [goIntegerMax] at hlarge ⊢
        omega
      exact .inl ⟨hcarried, _, log, decodeWithRef_double _ fuel log r, hlog, Binary64.value_ofInt hexact, hlarge⟩
    · -- the sign is written as bit 28, which is read as one of the magnitude
      rw [not_or, not_lt, not_lt] at hlarge
      have hwithin : -0xFFFFFFF ≤ i ∧ i ≤ 0xFFFFFFF := hlarge
      rw [encodeWithRef, encodeInt_ok hwithin, ok_bind, pure_eq_ok] at hw
      obtain ⟨rfl, rfl⟩ := ok_pair_inj hw
      rw [cons_append, decodeWithRef_integer (goBits_le hwithin)]
      refine readAs_value ⟨fun h => .inl ((goBits_eq_iff hwithin).mp h.1), fun h => ⟨?_, hlarge⟩⟩ hlog
      exact goBits_carried (h.resolve_right (not_lt.mpr hlarge.1))
  · intro n ref ref' w hexact hw fuel log r hlog _
    rw [Exact] at hexact
    by_cases hlarge : goIntegerMax < n
    · rw [encodeWithRef, encodeUint, if_pos hlarge, ok_bind, pure_eq_ok] at hw
      obtain ⟨rfl, rfl⟩ := ok_pair_inj hw
      have hvalue : Binary64.value (Binary64.ofInt n) = some (n : ℚ) := by
        exact_mod_cast Binary64.value_ofInt (i := n) hexact
      exact .inl ⟨trivial, _, log, decodeWithRef_double _ fuel log r, hlog, hvalue, hlarge⟩
    · rw [not_lt] at hlarge
      have hle : n ≤ u29Max := by
        rw [goIntegerMax] at hlarge
        rw [u29Max]
        omega
      rw [encodeWithRef, encodeUint_ok hlarge, ok_bind, pure_eq_ok] at hw
      obtain ⟨rfl, rfl⟩ := ok_pair_inj hw
      exact .inl ⟨trivial, _, log, decodeWithRef_integer hle fuel log r, hlog, rfl, hlarge⟩
  · intro d ref ref' w _ hw fuel log r hlog _
    obtain ⟨rfl, rfl⟩ := ok_pair_inj hw
    exact .inl ⟨trivial, _, log, decodeWithRef_double d fuel log r, hlog, rfl⟩
  · intro s ref ref' w _ hw fuel log r hlog _
    rw [encodeWithRef] at hw
    by_cases h : Carried (.string s) ref.strings
    · obtain ⟨n, body, hencode, hdecode⟩ := encodeString_carried h
      obtain ⟨rfl, rfl⟩ := ok_pair_inj (hencode.symm.trans hw)
      rw [cons_append, decodeWithRef, amfTypeOf_code]
      simp only [hdecode log r hlog, ok_bind, pure_eq_ok]
      exact readAs_value ⟨fun _ => h, fun _ => rfl⟩ rfl
    · obtain ⟨body, hbody, hne⟩ := encodeString_lost h hw
      refine .inr ⟨h, fun out r' log' hs hrestored => ?_⟩
      rw [hbody, cons_append, decodeWithRef, amfTypeOf_code] at hs
      obtain ⟨⟨s', r₁, log₁⟩, hstring, hrest⟩ := bind_ok_iff.mp hs
      obtain ⟨rfl, -⟩ := ok_pair_inj hrest
      exact hne log r s' r₁ log₁ hlog hstring hrestored
  · intro s ref ref' w _ hw fuel log r hlog _
    rw [encodeWithRef] at hw
    obtain ⟨w₁, hw₁, hrest⟩ := bind_ok_iff.mp hw
    obtain ⟨rfl, rfl⟩ := ok_pair_inj hrest
    by_cases h : s.length < 2 ^ 28
    · obtain ⟨n, body, hencode, hdecode⟩ := encodeByteArray_carried h
      obtain rfl := ok_unique hencode hw₁
      obtain ⟨bytes, hbytes⟩ := hdecode log r
      rw [cons_append, decodeWithRef, amfTypeOf_code]
      simp only [hbytes, ok_bind, pure_eq_ok]
      exact readAs_value ⟨fun _ => h, fun _ => rfl⟩ hlog
    · obtain ⟨body, hbody, hne⟩ := encodeByteArray_lost h hw₁
      refine .inr ⟨h, fun out r' log' hs hrestored => ?_⟩
      rw [hbody, cons_append, decodeWithRef, amfTypeOf_code] at hs
      obtain ⟨⟨s', r₁, log₁⟩, hbytes, hleft⟩ := bind_ok_iff.mp hs
      obtain ⟨rfl, -⟩ := ok_pair_inj hleft
      exact hne log r s' r₁ log₁ hbytes hrestored
  · intro vs ih ref ref' w hexact hw fuel log r hlog hfuel
    rw [Exact] at hexact
    rw [Carried]
    obtain ⟨hle, w₁, hw₁, hbody⟩ := encodeSlice_inv hw
    rw [hbody, length_cons, length_append, length_cons] at hfuel
    obtain ⟨k, rfl⟩ := exists_succ_of_lt hfuel
    rw [hbody, decodeWithRef_slice hle rfl]
    by_cases hfits : vs.length < 2 ^ 28
    · have hhalf : sizeHeader vs.length / 2 = vs.length := by
        rw [(sizeHeader_small hfits).1]
        omega
      rw [hhalf]
      obtain ⟨hcarried, outs, log', hvs, hlog', hrestored⟩ | ⟨hlost, hne⟩ := ih ref ref' w₁ hexact hw₁ k log r hlog (by omega)
      · exact .inl ⟨⟨hfits, hcarried⟩, .slice outs, log', by rw [hvs, ok_bind]; rfl, hlog', hrestored⟩
      · refine .inr ⟨fun h => hlost h.2, fun out r' log' h hrestored => ?_⟩
        obtain ⟨⟨outs, r₁, log₁⟩, houts, hrest⟩ := bind_ok_iff.mp h
        obtain ⟨rfl, -⟩ := ok_pair_inj hrest
        exact hne outs r₁ log₁ houts hrestored
    · refine .inr ⟨fun h => hfits h.1, fun out r' log' h hrestored => ?_⟩
      obtain ⟨⟨outs, r₁, log₁⟩, houts, hrest⟩ := bind_ok_iff.mp h
      obtain ⟨rfl, -⟩ := ok_pair_inj hrest
      exact sizeHeader_large hfits hle ((decodeElements_length _ houts).symm.trans (restoredAll_length vs hrestored))
  · intro ref ref' w _ hw fuel log r hlog _
    obtain ⟨rfl, rfl⟩ := ok_pair_inj hw
    exact .inl ⟨trivial, [], log, rfl, hlog, trivial⟩
  · intro v vs ihv ihs ref ref' w hexact hw fuel log r hlog hfuel
    rw [ExactAll] at hexact
    obtain ⟨w₁, ref₁, w₂, hw₁, hw₂, hbody⟩ := encodeElements_inv hw
    rw [hbody, length_append] at hfuel
    rw [hbody, append_assoc, length_cons, CarriedAll]
    obtain ⟨hcarried, out, log₁, hv, hlog₁, hrestored⟩ | ⟨hlost, hne⟩ :=
      ihv ref ref₁ w₁ hexact.1 hw₁ fuel log (w₂.bytes ++ r) hlog (by omega)
    · rw [← encode_met hcarried hw₁]
      obtain ⟨hall, outs, log₂, hvs, hlog₂, hrestoredAll⟩ | ⟨hlost, hne⟩ :=
        ihs ref₁ ref' w₂ hexact.2 hw₂ fuel log₁ r hlog₁ (by omega)
      · refine .inl ⟨⟨hcarried, hall⟩, out :: outs, log₂, ?_, hlog₂, hrestored, hrestoredAll⟩
        rw [decodeElements, hv, ok_bind]
        simp only [hvs, ok_bind, pure_eq_ok]
      · refine .inr ⟨fun h => hlost h.2, fun outs r' log' h hrestored => ?_⟩
        obtain ⟨out', r₁, log₂, rest, hout, hrest, rfl⟩ := decodeElements_inv h
        obtain ⟨-, hpair⟩ := ok_pair_inj (hv.symm.trans hout)
        obtain ⟨rfl, rfl⟩ := Prod.mk.inj hpair
        exact hne rest r' log' hrest hrestored.2
    · refine .inr ⟨fun h => hlost h.1, fun outs r' log' h hrestored => ?_⟩
      obtain ⟨out, r₁, log₁, rest, hout, -, rfl⟩ := decodeElements_inv h
      exact hne out r₁ log₁ hout hrestored.1

/-! ## `DecodeTo` -/

theorem decodeToWithRef_code (x : GoVar) (t : AmfType) (hkind : checkKind x t) (hne : t ≠ .array) (log : ReferenceLog)
    (r : Reader) : decodeToWithRef x log (amfCode t :: r) = decodeValueTo log r x t := by
  cases x <;> simp only [decodeToWithRef, amfTypeOf_code, hkind, if_true, hne, if_false]

structure Sequence (mk : List GoVar → GoVar) : Prop where
  reads : ∀ xs log r, decodeToWithRef (mk xs) log (amfCode .array :: r) = do
    let (vs, r, log) ← decodeArrayTo (decodeElementsTo xs) log r
    return (mk vs, r, log)
  inj : Function.Injective mk
  value : ∀ vs, (mk vs).value = .slice (values vs)
  positive : ∀ vs, (mk vs).Positive ↔ PositiveAll vs
  like : ∀ x vs, Like x (mk vs) → ∃ xs, x = mk xs ∧ sizeHeader vs.length / 2 = xs.length ∧ LikeAll xs vs

theorem sequence_array : Sequence .array := by
  refine ⟨fun xs log r => ?_, fun _ _ => GoVar.array.inj, fun _ => rfl, fun _ => Iff.rfl, fun x vs h => ?_⟩
  · rw [decodeToWithRef, amfTypeOf_code]
    rfl
  · cases x with
    | array xs => exact ⟨xs, rfl, h⟩
    | _ => exact h.elim

theorem sequence_slice : Sequence .slice := by
  refine ⟨fun xs log r => ?_, fun _ _ => GoVar.slice.inj, fun _ => rfl, fun _ => Iff.rfl, fun x vs h => ?_⟩
  · rw [decodeToWithRef, amfTypeOf_code]
    rfl
  · cases x with
    | slice xs => exact ⟨xs, rfl, h⟩
    | _ => exact h.elim

theorem sequence_struct : Sequence .struct := by
  refine ⟨fun xs log r => ?_, fun _ _ => GoVar.struct.inj, fun _ => rfl, fun _ => Iff.rfl, fun x vs h => ?_⟩
  · rw [decodeToWithRef, amfTypeOf_code]
    rfl
  · cases x with
    | struct xs => exact ⟨xs, rfl, h⟩
    | _ => exact h.elim

theorem goVar_induction {P : GoVar → Prop} {Q : List GoVar → Prop} (bool : ∀ b, P (.bool b)) (int : ∀ i, P (.int i))
    (uint : ∀ n, P (.uint n)) (float : ∀ d, P (.float d)) (string : ∀ s, P (.string s)) (bytes : ∀ s, P (.bytes s))
    (sequence : ∀ mk, Sequence mk → ∀ vs, Q vs → P (mk vs)) (none : Q []) (cons : ∀ v vs, P v → Q vs → Q (v :: vs)) :
    ∀ v, P v :=
  fun v => @GoVar.rec P Q bool int uint float string bytes (sequence _ sequence_array) (sequence _ sequence_slice)
    (sequence _ sequence_struct) none cons v

theorem values_length (vs : List GoVar) : (values vs).length = vs.length := by
  induction vs with
  | nil => rfl
  | cons v vs ih => rw [values, length_cons, length_cons, ih]

theorem likeAll_length (xs : List GoVar) : ∀ {vs : List GoVar}, LikeAll xs vs → vs.length = xs.length := by
  induction xs with
  | nil =>
    intro vs h
    cases vs with
    | nil => rfl
    | cons v vs => exact h.elim
  | cons x xs ih =>
    intro vs h
    cases vs with
    | nil => exact h.elim
    | cons v vs => rw [length_cons, length_cons, ih h.2]

theorem readAs_sequence {mk : List GoVar → GoVar} (hmk : Sequence mk) {vs xs : List GoVar}
    (hlen : sizeHeader vs.length / 2 = xs.length) (hlike : LikeAll xs vs) {ref ref' log : ReferenceLog} {w : Wrote} {r : Reader}
    (hw : encodeWithRef Binary64.ofInt (.slice (values vs)) ref = .ok (w, ref'))
    (hread : ∀ w', encodeElements Binary64.ofInt (values vs) ref = .ok (w', ref') →
      ReadAs (decodeElementsTo xs xs.length log (w'.bytes ++ r)) (· = vs) r ref'.strings
        (CarriedAll (values vs) ref.strings ∧ PositiveAll vs)) :
    ReadAs (decodeToWithRef (mk xs) log (w.bytes ++ r)) (· = mk vs) r ref'.strings
      (Carried (mk vs).value ref.strings ∧ (mk vs).Positive) := by
  obtain ⟨hle, w', hw', hbody⟩ := encodeSlice_inv hw
  rw [values_length] at hle hbody
  have hdecode : decodeToWithRef (mk xs) log (w.bytes ++ r) = (do
      let (vs, r, log) ← decodeElementsTo xs xs.length log (w'.bytes ++ r)
      return (mk vs, r, log)) := by
    rw [hbody, cons_append, hmk.reads]
    simp only [decodeArrayTo, append_assoc, cons_append, decodeU29_complete (isU29_u29 hle), ok_bind, hlen]
  have hfits : (values vs).length < 2 ^ 28 := by
    rw [values_length]
    by_contra hlarge
    exact sizeHeader_large hlarge hle (hlen.trans (likeAll_length xs hlike).symm)
  rw [hdecode, hmk.value, hmk.positive, Carried]
  obtain ⟨⟨hcarried, hpos⟩, _, log', hvs, hlog', rfl⟩ | ⟨hlost, hne⟩ := hread w' hw'
  · exact .inl ⟨⟨⟨hfits, hcarried⟩, hpos⟩, _, log', by rw [hvs, ok_bind]; rfl, hlog', rfl⟩
  · refine .inr ⟨fun h => hlost ⟨h.1.2, h.2⟩, fun u r' log' h hu => ?_⟩
    obtain ⟨⟨vs', r₁, log₁⟩, hvs, hrest⟩ := bind_ok_iff.mp h
    obtain ⟨rfl, -⟩ := ok_pair_inj hrest
    exact hne vs' r₁ log₁ hvs (hmk.inj hu)

theorem decodeElementsTo_inv {x : GoVar} {xs vs : List GoVar} {l : ℕ} {log log' : ReferenceLog} {r r' : Reader}
    (h : decodeElementsTo (x :: xs) (l + 1) log r = .ok (vs, r', log')) :
    ∃ v r₁ log₁ rest, decodeToWithRef x log r = .ok (v, r₁, log₁) ∧ decodeElementsTo xs l log₁ r₁ = .ok (rest, r', log') ∧
      vs = v :: rest := by
  rw [decodeElementsTo] at h
  obtain ⟨⟨v₁, r₁, log₁⟩, h₁, h⟩ := bind_ok_iff.mp h
  obtain ⟨⟨vs₁, r₂, log₂⟩, h₂, hrest⟩ := bind_ok_iff.mp h
  simp only [pure_eq_ok, ok_pair_iff] at hrest
  obtain ⟨rfl, rfl, rfl⟩ := hrest
  exact ⟨v₁, r₁, log₁, vs₁, h₁, h₂, rfl⟩

theorem decodeTo_written : ∀ (v x : GoVar) (ref ref' : ReferenceLog) (w : Wrote), Like x v →
    encodeWithRef Binary64.ofInt v.value ref = .ok (w, ref') → ∀ log r, log.strings = ref.strings →
    ReadAs (decodeToWithRef x log (w.bytes ++ r)) (· = v) r ref'.strings (Carried v.value ref.strings ∧ v.Positive) := by
  refine goVar_induction (Q := fun vs => ∀ xs ref ref' w, LikeAll xs vs →
    encodeElements Binary64.ofInt (values vs) ref = .ok (w, ref') → ∀ log r, log.strings = ref.strings →
    ReadAs (decodeElementsTo xs xs.length log (w.bytes ++ r)) (· = vs) r ref'.strings
      (CarriedAll (values vs) ref.strings ∧ PositiveAll vs)) ?_ ?_ ?_ ?_ ?_ ?_ ?_ ?_ ?_
  · intro b x ref ref' w hlike hw log r hlog
    cases x with
    | bool c =>
      obtain ⟨rfl, rfl⟩ := ok_pair_inj hw
      cases b with
      | false => exact .inl ⟨⟨trivial, trivial⟩, _, log, decodeToWithRef_code (.bool c) .false rfl (by decide) log r, hlog, rfl⟩
      | true => exact .inl ⟨⟨trivial, trivial⟩, _, log, decodeToWithRef_code (.bool c) .true rfl (by decide) log r, hlog, rfl⟩
    | _ => exact hlike.elim
  · intro i x ref ref' w hlike hw log r hlog
    cases x with
    | int j =>
      have hwithin : -0xFFFFFFF ≤ i ∧ i ≤ 0xFFFFFFF := hlike
      rw [GoVar.value, encodeWithRef, encodeInt_ok hwithin, ok_bind, pure_eq_ok] at hw
      obtain ⟨rfl, rfl⟩ := ok_pair_inj hw
      rw [cons_append, decodeToWithRef_code (.int j) .integer rfl (by decide), decodeValueTo,
        decodeInteger_u29 (goBits_le hwithin), ok_bind]
      refine readAs_value ⟨fun h => ⟨.inl ((goBits_eq_iff hwithin).mp (GoVar.int.inj h)), trivial⟩, fun h => ?_⟩ hlog
      rw [goBits_carried (h.1.resolve_right (not_lt.mpr hlike.1))]
    | _ => exact hlike.elim
  · intro n x ref ref' w hlike hw log r hlog
    cases x with
    | uint m =>
      have hwithin : (n : ℤ) ≤ 0xFFFFFFF := hlike
      rw [GoVar.value, encodeWithRef, encodeUint_ok hlike, ok_bind, pure_eq_ok] at hw
      obtain ⟨rfl, rfl⟩ := ok_pair_inj hw
      have hle : n ≤ u29Max := by
        rw [u29Max]
        omega
      rw [cons_append, decodeToWithRef_code (.uint m) .integer rfl (by decide), decodeValueTo, decodeInteger_u29 hle, ok_bind]
      dsimp only
      split_ifs with hpos
      · exact readAs_value ⟨fun _ => ⟨trivial, Int.natCast_pos.mp hpos⟩, fun _ => rfl⟩ hlog
      · exact .inr ⟨fun h => hpos (Int.natCast_pos.mpr h.2), fun u r' log' h => by cases h⟩
    | _ => exact hlike.elim
  · intro d x ref ref' w hlike
    cases x <;> exact hlike.elim
  · intro s x ref ref' w hlike hw log r hlog
    cases x with
    | string s₀ =>
      rw [GoVar.value, encodeWithRef] at hw
      by_cases h : Carried (.string s) ref.strings
      · obtain ⟨n, body, hencode, hdecode⟩ := encodeString_carried h
        obtain ⟨rfl, rfl⟩ := ok_pair_inj (hencode.symm.trans hw)
        rw [cons_append, decodeToWithRef_code (.string s₀) .string rfl (by decide), decodeValueTo, hdecode log r hlog, ok_bind]
        exact readAs_value ⟨fun _ => ⟨h, trivial⟩, fun _ => rfl⟩ rfl
      · obtain ⟨body, hbody, hne⟩ := encodeString_lost h hw
        refine .inr ⟨fun hc => h hc.1, fun u r' log' hs hu => ?_⟩
        rw [hbody, cons_append, decodeToWithRef_code (.string s₀) .string rfl (by decide), decodeValueTo] at hs
        obtain ⟨⟨s', r₁, log₁⟩, hstring, hrest⟩ := bind_ok_iff.mp hs
        obtain ⟨rfl, -⟩ := ok_pair_inj hrest
        exact hne log r s' r₁ log₁ hlog hstring (GoVar.string.inj hu)
    | _ => exact hlike.elim
  · intro s x ref ref' w hlike hw log r hlog
    cases x with
    | bytes s₀ =>
      rw [GoVar.value, encodeWithRef] at hw
      obtain ⟨w₁, hw₁, hrest⟩ := bind_ok_iff.mp hw
      obtain ⟨rfl, rfl⟩ := ok_pair_inj hrest
      by_cases h : s.length < 2 ^ 28
      · obtain ⟨n, body, hencode, hdecode⟩ := encodeByteArray_carried h
        obtain rfl := ok_unique hencode hw₁
        obtain ⟨bytes, hbytes⟩ := hdecode log r
        rw [cons_append, decodeToWithRef_code (.bytes s₀) .byteArray rfl (by decide), decodeValueTo, hbytes, ok_bind]
        exact readAs_value ⟨fun _ => ⟨h, trivial⟩, fun _ => rfl⟩ hlog
      · obtain ⟨body, hbody, hne⟩ := encodeByteArray_lost h hw₁
        refine .inr ⟨fun hc => h hc.1, fun u r' log' hs hu => ?_⟩
        rw [hbody, cons_append, decodeToWithRef_code (.bytes s₀) .byteArray rfl (by decide), decodeValueTo] at hs
        obtain ⟨⟨s', r₁, log₁⟩, hbytes, hleft⟩ := bind_ok_iff.mp hs
        obtain ⟨rfl, -⟩ := ok_pair_inj hleft
        exact hne log r s' r₁ log₁ hbytes (GoVar.bytes.inj hu)
    | _ => exact hlike.elim
  · intro mk hmk vs ih x ref ref' w hlike hw log r hlog
    obtain ⟨xs, rfl, hlen, hall⟩ := hmk.like x vs hlike
    rw [hmk.value] at hw
    exact readAs_sequence hmk hlen hall hw fun w' hw' => ih xs ref ref' w' hall hw' log r hlog
  · intro xs ref ref' w hlike hw log r hlog
    cases xs with
    | nil =>
      obtain ⟨rfl, rfl⟩ := ok_pair_inj hw
      exact .inl ⟨⟨trivial, trivial⟩, [], log, rfl, hlog, rfl⟩
    | cons x xs => exact hlike.elim
  · intro v vs ihv ihs xs ref ref' w hlike hw log r hlog
    cases xs with
    | nil => exact hlike.elim
    | cons x xs =>
      obtain ⟨w₁, ref₁, w₂, hw₁, hw₂, hbody⟩ := encodeElements_inv hw
      rw [hbody, append_assoc, length_cons, values, CarriedAll]
      obtain ⟨⟨hcarried, hpos⟩, _, log₁, hv, hlog₁, rfl⟩ | ⟨hlost, hne⟩ :=
        ihv x ref ref₁ w₁ hlike.1 hw₁ log (w₂.bytes ++ r) hlog
      · rw [← encode_met hcarried hw₁]
        obtain ⟨⟨hall, hposAll⟩, _, log₂, hvs, hlog₂, rfl⟩ | ⟨hlost, hne⟩ := ihs xs ref₁ ref' w₂ hlike.2 hw₂ log₁ r hlog₁
        · refine .inl ⟨⟨⟨hcarried, hall⟩, hpos, hposAll⟩, _, log₂, ?_, hlog₂, rfl⟩
          rw [decodeElementsTo, hv, ok_bind]
          simp only [hvs, ok_bind, pure_eq_ok]
        · refine .inr ⟨fun h => hlost ⟨h.1.2, h.2.2⟩, fun us r' log' h hus => ?_⟩
          obtain ⟨v', r₁, log₂, rest, hv', hrest, rfl⟩ := decodeElementsTo_inv h
          obtain ⟨-, hpair⟩ := ok_pair_inj (hv.symm.trans hv')
          obtain ⟨rfl, rfl⟩ := Prod.mk.inj hpair
          exact hne rest r' log' hrest (cons.inj hus).2
      · refine .inr ⟨fun h => hlost ⟨h.1.1, h.2.1⟩, fun us r' log' h hus => ?_⟩
        obtain ⟨v', r₁, log₁, rest, hv', -, rfl⟩ := decodeElementsTo_inv h
        exact hne v' r₁ log₁ hv' (cons.inj hus).1

/-! ## Round trips -/

theorem roundTrip_iff {v : GoValue} (hexact : Exact v) : RoundTrip v ↔ Carried v [] := by
  constructor
  · rintro ⟨w, hencode, out, hdecode, hrestored⟩
    obtain ⟨⟨w₁, ref'⟩, hw, hrest⟩ := bind_ok_iff.mp hencode
    obtain rfl := Except.ok.inj hrest
    obtain ⟨⟨out₁, r', log'⟩, hout, hleft⟩ := bind_ok_iff.mp hdecode
    obtain ⟨rfl, -⟩ := ok_pair_inj hleft
    have hread := decode_written v {} ref' w₁ hexact hw w₁.bytes.length {} [] rfl (le_refl _)
    rw [append_nil] at hread
    exact (hread.resolve_right fun h => h.2 _ _ _ hout hrestored).1
  · intro h
    obtain ⟨w, hw⟩ := encode_ok v {} h
    have hread := decode_written v {} _ w hexact hw w.bytes.length {} [] rfl (le_refl _)
    rw [append_nil] at hread
    obtain ⟨-, out, log', hout, -, hrestored⟩ := hread.resolve_right fun hlost => hlost.1 h
    exact ⟨w, by rw [Encode, hw, ok_bind]; rfl, out, by rw [Decode, hout, ok_bind]; rfl, hrestored⟩

theorem roundTripTo_iff {x v : GoVar} (hlike : Like x v) : RoundTripTo x v ↔ Carried v.value [] ∧ v.Positive := by
  constructor
  · rintro ⟨w, hencode, hdecode⟩
    obtain ⟨⟨w₁, ref'⟩, hw, hrest⟩ := bind_ok_iff.mp hencode
    obtain rfl := Except.ok.inj hrest
    obtain ⟨⟨v₁, r', log'⟩, hv, hleft⟩ := bind_ok_iff.mp hdecode
    obtain ⟨rfl, rfl⟩ := ok_pair_inj hleft
    have hread := decodeTo_written v₁ x {} ref' w₁ hlike hw {} [] rfl
    rw [append_nil] at hread
    exact (hread.resolve_right fun h => h.2 _ _ _ hv rfl).1
  · intro h
    obtain ⟨w, hw⟩ := encode_ok v.value {} h.1
    have hread := decodeTo_written v x {} _ w hlike hw {} [] rfl
    rw [append_nil] at hread
    obtain ⟨-, _, log', hv, -, rfl⟩ := hread.resolve_right fun hlost => hlost.1 h
    exact ⟨w, by rw [Encode, hw, ok_bind]; rfl, by rw [DecodeTo, hv, ok_bind]; rfl⟩

/-- Both decoders restore what was written just when it is carried and, for `DecodeTo`, no unsigned integer is 0. -/
theorem goRoundTrip_iff (w : GoValue) (x v : GoVar) :
    (Exact w → (RoundTrip w ↔ Carried w [])) ∧ (Like x v → (RoundTripTo x v ↔ Carried v.value [] ∧ v.Positive)) :=
  ⟨fun hexact => roundTrip_iff hexact, fun hlike => roundTripTo_iff hlike⟩

theorem goRoundTrip_iff_nested :
    RoundTrip (.slice [.string [0x61], .int (-0x10000000), .slice [.uint 0, .string [0x61]]]) ∧
      RoundTripTo (.struct [.string [], .array [.uint 0, .uint 0], .int 0])
        (.struct [.string [0x61], .array [.uint 1, .uint 300], .int 0]) :=
  ⟨((goRoundTrip_iff _ (.int 0) (.int 0)).1 (by simp [Exact, ExactAll])).mpr
      (by simp [Carried, CarriedAll, met, goIntegerMax, List.idxOf?]),
    ((goRoundTrip_iff (.int 0) _ _).2 (by simp [Like, LikeAll, sizeHeader, goIntegerMax])).mpr
      ⟨by simp [GoVar.value, values, Carried, CarriedAll, List.idxOf?], by simp [GoVar.Positive, PositiveAll]⟩⟩

/-- The sign of -1 is read as a bit of the magnitude, and 0 is no unsigned integer. -/
theorem goRoundTrip_lost :
    (Encode Binary64.ofInt (.int (-1)) = .ok ⟨5, [0x04, 0xC0, 0x80, 0x80, 0x01]⟩ ∧
      Decode [0x04, 0xC0, 0x80, 0x80, 0x01] = .ok (.int 0x10000001, []) ∧ Exact (.int (-1)) ∧ ¬ RoundTrip (.int (-1))) ∧
    (Encode Binary64.ofInt (.uint 0) = .ok ⟨2, [0x04, 0x00]⟩ ∧ DecodeTo [0x04, 0x00] (.uint 5) = .error .type ∧
      Like (.uint 5) (.uint 0) ∧ ¬ RoundTripTo (.uint 5) (.uint 0)) := by
  refine ⟨⟨rfl, rfl, by simp [Exact], ?_⟩, rfl, rfl, by simp [Like, goIntegerMax], ?_⟩
  · rintro ⟨w, hencode, out, hdecode, hrestored⟩
    obtain rfl := Except.ok.inj hencode
    obtain ⟨rfl, -⟩ := ok_pair_inj hdecode
    exact absurd hrestored.1 (by decide)
  · rintro ⟨w, hencode, hdecode⟩
    obtain rfl := Except.ok.inj hencode
    injection hdecode

end CServer.Proto
