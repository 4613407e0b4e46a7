import CServer.Framework.Amf

/-! # `proto/amf/amf.go`: the codec of the Go services

`Encode` writes to a writer that does not fail, `Decode` reads from a byte string. A value is what
`reflect` distinguishes; a `[]byte` is not a slice of its own. The strings written so far are kept in
`ReferenceLog`, and a string met again is written as its index there.
-/
namespace CServer.Proto
open CServer.Lib CServer.Framework

/-! ## Values -/

inductive GoError
  | eof
  | unexpectedEof
  | notImplement
  | u29OutOfRange
  | logLength
  | reference
  | type
  | panic
  | diverges
  deriving DecidableEq, Repr

/-- What an `interface{}` holds; a float is its bit pattern. -/
inductive GoValue
  | nil
  | bool (b : Bool)
  | int (i : ℤ)
  | uint (n : ℕ)
  | float (d : UInt64)
  | string (s : List UInt8)
  | bytes (s : List UInt8)
  | slice (vs : List GoValue)

structure ReferenceLog where
  strings : List (List UInt8) := []
  bytes : List (List UInt8) := []

structure Wrote where
  n : ℕ
  bytes : List UInt8

/-! ## The encoder -/

def goIntegerMax : ℤ := 0xFFFFFFF

def encodeU29 (value : ℕ) : Except GoError (List UInt8) :=
  if value ≤ 0x7F then .ok [UInt8.ofNat value]
  else if value ≤ 0x3FFF then .ok [UInt8.ofNat (0x80 + value / 2 ^ 7), UInt8.ofNat (value % 2 ^ 7)]
  else if value ≤ 0x1FFFFF then
    .ok [UInt8.ofNat (0x80 + value / 2 ^ 14), UInt8.ofNat (0x80 + value / 2 ^ 7 % 2 ^ 7), UInt8.ofNat (value % 2 ^ 7)]
  else if value ≤ 0x1FFFFFFF then
    .ok [UInt8.ofNat (0x80 + value / 2 ^ 22), UInt8.ofNat (0x80 + value / 2 ^ 15 % 2 ^ 7),
      UInt8.ofNat (0x80 + value / 2 ^ 8 % 2 ^ 7), UInt8.ofNat (value % 2 ^ 8)]
  else .error .u29OutOfRange

def writeAmfType (t : AmfType) : Wrote := ⟨1, [amfCode t]⟩

def encodeBool (value : Bool) : Wrote := if value then writeAmfType .true else writeAmfType .false

def encodeNull : Wrote := writeAmfType .null

def s2u (i : ℤ) : Except GoError ℕ :=
  if goIntegerMax < i ∨ i < -goIntegerMax then .error .panic
  else if 0 ≤ i then .ok i.toNat
  else .ok (0x10000000 + (-i).toNat)

def u2s (u : ℕ) : Except GoError ℤ :=
  if 0x1FFFFFFF < u then .error .panic
  else if u / 2 ^ 28 % 2 = 0 then .ok u
  else .ok (-(u % 2 ^ 28 : ℕ))

def encodeFloat (value : UInt64) : Wrote := ⟨9, amfCode .double :: Binary64.toBytes value⟩

/-- `float64` converts an integer too large for 29 bits. -/
def encodeInt (float64 : ℤ → UInt64) (value : ℤ) : Except GoError Wrote :=
  if goIntegerMax < value ∨ value < -goIntegerMax then .ok (encodeFloat (float64 value))
  else do
    let u ← s2u value
    let bs ← encodeU29 u
    return ⟨bs.length + 1, amfCode .integer :: bs⟩

def encodeUint (float64 : ℤ → UInt64) (value : ℕ) : Except GoError Wrote :=
  if goIntegerMax < value then .ok (encodeFloat (float64 value))
  else do
    let bs ← encodeU29 value
    return ⟨bs.length + 1, amfCode .integer :: bs⟩

/-- `encodeByteArray`; the search for a reference is commented out. -/
def encodeByteArray (value : List UInt8) : Except GoError Wrote :=
  let l := sizeHeader value.length
  if 0x1FFFFFFF < l then .error .logLength
  else do
    let bs ← encodeU29 l
    return ⟨value.length + bs.length + 1, amfCode .byteArray :: (bs ++ value)⟩

def encodeString (value : List UInt8) (ref : ReferenceLog) : Except GoError (Wrote × ReferenceLog) :=
  match ref.strings.idxOf? value with
  | some i =>
    let l := 2 * (i % 2 ^ 32) % 2 ^ 32
    if 0x1FFFFFFF < l then .error .logLength
    else do
      let bs ← encodeU29 l
      return (⟨bs.length + 1, amfCode .string :: bs⟩, ref)
  | none =>
    let l := sizeHeader value.length
    if 0x1FFFFFFF < l then .error .logLength
    else do
      let bs ← encodeU29 l
      return (⟨value.length + bs.length + 1, amfCode .string :: (bs ++ value)⟩,
        { ref with strings := ref.strings ++ [value] })

mutual

def encodeWithRef (float64 : ℤ → UInt64) : GoValue → ReferenceLog → Except GoError (Wrote × ReferenceLog)
  | .nil, ref => .ok (encodeNull, ref)
  | .bool b, ref => .ok (encodeBool b, ref)
  | .int i, ref => do return (← encodeInt float64 i, ref)
  | .uint n, ref => do return (← encodeUint float64 n, ref)
  | .float d, ref => .ok (encodeFloat d, ref)
  | .string s, ref => encodeString s ref
  | .bytes s, ref => do return (← encodeByteArray s, ref)
  | .slice vs, ref =>
    -- `encodeArray`
    let el := sizeHeader vs.length
    if 0x1FFFFFFF < el then .error .logLength
    else do
      let bs ← encodeU29 el
      let (w, ref) ← encodeElements float64 vs ref
      return (⟨bs.length + 2 + w.n, amfCode .array :: (bs ++ 0x01 :: w.bytes)⟩, ref)

def encodeElements (float64 : ℤ → UInt64) : List GoValue → ReferenceLog → Except GoError (Wrote × ReferenceLog)
  | [], ref => .ok (⟨0, []⟩, ref)
  | v :: vs, ref => do
    let (w, ref) ← encodeWithRef float64 v ref
    let (ws, ref) ← encodeElements float64 vs ref
    return (⟨w.n + ws.n, w.bytes ++ ws.bytes⟩, ref)

end

def Encode (float64 : ℤ → UInt64) (v : GoValue) : Except GoError Wrote := do
  let (w, _) ← encodeWithRef float64 v {}
  return w

/-! ## The decoder -/

abbrev Reader := List UInt8

def decodeU29From (i value : ℕ) : Reader → Except GoError (ℕ × Reader)
  | [] => .error .eof
  | c :: r =>
    if i ≠ 3 then
      let value := value + c.toNat % 2 ^ 7
      if c.toNat / 2 ^ 7 ≠ 0 then
        if i ≠ 2 then decodeU29From (i + 1) (value * 2 ^ 7) r
        else decodeU29From (i + 1) (value * 2 ^ 8) r
      else .ok (value, r)
    else .ok (value + c.toNat, r)

def decodeU29 (r : Reader) : Except GoError (ℕ × Reader) := decodeU29From 0 0 r

def readFull (l : ℕ) (r : Reader) : Except GoError (List UInt8 × Reader) :=
  if l ≤ r.length then .ok (r.take l, r.drop l)
  else if r.length = 0 then .error .eof
  else .error .unexpectedEof

/-- `decodeInteger`: an error of `decodeU29`, with the reader at its end, is taken for a 0. -/
def decodeInteger (r : Reader) : Except GoError (ℤ × Reader) :=
  match decodeU29 r with
  | .error _ => .ok (0, [])
  | .ok (value, r) => .ok (value, r)

def decodeSinteger (r : Reader) : Except GoError (ℤ × Reader) :=
  match decodeU29 r with
  | .error _ => .ok (0, [])
  | .ok (value, r) => do return (← u2s value, r)

def decodeFloat (r : Reader) : Except GoError (UInt64 × Reader) := do
  let (bs, r) ← readFull 8 r
  return (Binary64.ofBytes bs, r)

/-- The common body of `decodeString` and `decodeByteArray`, on the log of the one or the other: the
bytes, what is left, and the log with the bytes unless they were looked up in it. -/
def decodeLogged (log : List (List UInt8)) (r : Reader) : Except GoError (List UInt8 × Reader × List (List UInt8)) := do
  let (l, r) ← decodeU29 r
  if l % 2 = 0 then
    if 0 < log.length then
      match log[l / 2]? with
      | some bs => return (bs, r, log)
      | none => .error .panic
    else .error .reference
  else
    let (bs, r) ← readFull (l / 2) r
    return (bs, r, log ++ [bs])

def decodeString (ref : ReferenceLog) (r : Reader) : Except GoError (List UInt8 × Reader × ReferenceLog) := do
  let (s, r, strings) ← decodeLogged ref.strings r
  return (s, r, { ref with strings := strings })

def decodeByteArray (ref : ReferenceLog) (r : Reader) : Except GoError (List UInt8 × Reader × ReferenceLog) := do
  let (s, r, bytes) ← decodeLogged ref.bytes r
  return (s, r, { ref with bytes := bytes })

abbrev Next (α : Type) := α × Reader × ReferenceLog

/-- The loop of `decodeArray` over the elements, with `decode` for `decodeWithRef`. -/
def decodeElements (decode : ReferenceLog → Reader → Except GoError (Next GoValue)) :
    ℕ → ReferenceLog → Reader → Except GoError (Next (List GoValue))
  | 0, ref, r => .ok ([], r, ref)
  | l + 1, ref, r => do
    let (v, r, ref) ← decode ref r
    let (vs, r, ref) ← decodeElements decode l ref r
    return (v :: vs, r, ref)

/-- `decodeArray`; neither the low bit of the length nor the name is looked at. -/
def decodeArray (decode : ReferenceLog → Reader → Except GoError (Next GoValue)) (ref : ReferenceLog) (r : Reader) :
    Except GoError (Next (List GoValue)) := do
  let (l, r) ← decodeU29 r
  match r with
  | [] => .error .eof
  | _ :: r => decodeElements decode (l / 2) ref r

/-- `decodeWithRef`. The first argument bounds the depth of the recursion. -/
def decodeWithRef : ℕ → ReferenceLog → Reader → Except GoError (Next GoValue)
  | 0, _, _ => .error .diverges
  | _ + 1, _, [] => .error .eof
  | fuel + 1, ref, t :: r =>
    match amfTypeOf t with
    | some .undefine => .ok (.nil, r, ref)
    | some .null => .ok (.nil, r, ref)
    | some .false => .ok (.bool false, r, ref)
    | some .true => .ok (.bool true, r, ref)
    | some .integer => do
      let (i, r) ← decodeInteger r
      return (.int i, r, ref)
    | some .double => do
      let (d, r) ← decodeFloat r
      return (.float d, r, ref)
    | some .string => do
      let (s, r, ref) ← decodeString ref r
      return (.string s, r, ref)
    | some .array => do
      let (vs, r, ref) ← decodeArray (decodeWithRef fuel) ref r
      return (.slice vs, r, ref)
    | some .byteArray => do
      let (s, r, ref) ← decodeByteArray ref r
      return (.bytes s, r, ref)
    | some .sinteger => do
      let (i, r) ← decodeSinteger r
      return (.int i, r, ref)
    | _ => .error .notImplement

def Decode (r : Reader) : Except GoError (GoValue × Reader) := do
  let (v, r, _) ← decodeWithRef (r.length + 1) {} r
  return (v, r)

end CServer.Proto
