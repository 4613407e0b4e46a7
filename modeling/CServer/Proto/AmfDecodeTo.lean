import CServer.Proto.Amf

/-! # `proto/amf/amf.go`: decoding into a variable

`DecodeTo` reads a value into a variable whose type says what it takes: each kind has the wire types that `checkKind` admits
for it. The variable keeps what no value was read for.
-/
namespace CServer.Proto
open CServer.Lib CServer.Framework

/-- What a variable holds, and with that its type; its integers and floats have 64 bits. A struct is its fields. -/
inductive GoVar
  | bool (b : Bool)
  | int (i : ℤ)
  | uint (n : ℕ)
  | float (d : UInt64)
  | string (s : List UInt8)
  | bytes (s : List UInt8)
  | array (vs : List GoVar)
  | slice (vs : List GoVar)
  | struct (vs : List GoVar)

mutual

def GoVar.zero : GoVar → GoVar
  | .bool _ => .bool false
  | .int _ => .int 0
  | .uint _ => .uint 0
  | .float _ => .float 0
  | .string _ => .string []
  | .bytes _ => .bytes []
  | .array vs => .array (zeros vs)
  | .slice _ => .slice []
  | .struct vs => .struct (zeros vs)

def zeros : List GoVar → List GoVar
  | [] => []
  | v :: vs => v.zero :: zeros vs

end

def checkKind (v : GoVar) (t : AmfType) : Bool :=
  if t = .undefine ∨ t = .null then true
  else
    match v with
    | .bool _ => t = .true ∨ t = .false
    | .int _ => t = .integer
    | .uint _ => t = .integer
    | .float _ => t = .double
    | .bytes _ => t = .array ∨ t = .byteArray
    | .array _ => t = .array ∨ t = .byteArray
    | .slice _ => t = .array ∨ t = .byteArray
    | .struct _ => t = .array
    | .string _ => t = .string ∨ t = .byteArray

/-- The cases of `decodeToWithRef` but for arrays, on what `checkKind` admits. Signed integers are not among that. -/
def decodeValueTo (ref : ReferenceLog) (r : Reader) : GoVar → AmfType → Except GoError (Next GoVar)
  | v, .undefine => .ok (v.zero, r, ref)
  | v, .null => .ok (v.zero, r, ref)
  | .bool _, .false => .ok (.bool false, r, ref)
  | .bool _, .true => .ok (.bool true, r, ref)
  | .int _, .integer => do
    let (i, r) ← decodeInteger r
    return (.int i, r, ref)
  | .uint _, .integer => do
    let (i, r) ← decodeInteger r
    if 0 < i then return (.uint i.toNat, r, ref) else .error .type
  | .float _, .double => do
    let (d, r) ← decodeFloat r
    return (.float d, r, ref)
  | .string _, .string => do
    let (s, r, ref) ← decodeString ref r
    return (.string s, r, ref)
  | .bytes _, .byteArray => do
    let (s, r, ref) ← decodeByteArray ref r
    return (.bytes s, r, ref)
  | .string _, .byteArray => do
    let (s, r, ref) ← decodeByteArray ref r
    return (.string s, r, ref)
  | _, .byteArray => do
    let _ ← decodeByteArray ref r
    .error .type
  | _, _ => .error .type

/-- `decodeArrayTo`, with `elements` for the loop over the elements or fields. -/
def decodeArrayTo {α : Type} (elements : ℕ → ReferenceLog → Reader → Except GoError (Next α)) (ref : ReferenceLog)
    (r : Reader) : Except GoError (Next α) := do
  let (l, r) ← decodeU29 r
  match r with
  | [] => .error .eof
  | _ :: r => elements (l / 2) ref r

/-- An element of a `[]byte`, which is an unsigned integer of 8 bits. -/
def decodeByteTo (ref : ReferenceLog) : Reader → Except GoError (Next UInt8)
  | [] => .error .eof
  | t :: r =>
    match amfTypeOf t with
    | some .undefine => .ok (0, r, ref)
    | some .null => .ok (0, r, ref)
    | some .integer => do
      let (i, r) ← decodeInteger r
      if 0 < i then return (UInt8.ofNat i.toNat, r, ref) else .error .type
    | _ => .error .type

/-- The loop over the elements of a `[]byte`. What is beyond its length is not read. -/
def decodeBytesTo : List UInt8 → ℕ → ReferenceLog → Reader → Except GoError (Next (List UInt8))
  | s, 0, ref, r => .ok (s, r, ref)
  | [], _ + 1, ref, r => .ok ([], r, ref)
  | _ :: s, l + 1, ref, r => do
    let (c, r, ref) ← decodeByteTo ref r
    let (s, r, ref) ← decodeBytesTo s l ref r
    return (c :: s, r, ref)

mutual

def decodeToWithRef : GoVar → ReferenceLog → Reader → Except GoError (Next GoVar)
  | _, _, [] => .error .eof
  | v, ref, t :: r =>
    match amfTypeOf t with
    | none => .error .type
    | some t =>
      if checkKind v t then
        if t = .array then
          match v with
          | .array vs => do
            let (vs, r, ref) ← decodeArrayTo (decodeElementsTo vs) ref r
            return (.array vs, r, ref)
          | .slice vs => do
            let (vs, r, ref) ← decodeArrayTo (decodeElementsTo vs) ref r
            return (.slice vs, r, ref)
          | .struct vs => do
            let (vs, r, ref) ← decodeArrayTo (decodeElementsTo vs) ref r
            return (.struct vs, r, ref)
          | .bytes s => do
            let (s, r, ref) ← decodeArrayTo (decodeBytesTo s) ref r
            return (.bytes s, r, ref)
          | _ => .error .type
        else decodeValueTo ref r v t
      else .error .type

/-- The loop of `decodeArrayTo`. What is beyond the length of the variable is not read. -/
def decodeElementsTo : List GoVar → ℕ → ReferenceLog → Reader → Except GoError (Next (List GoVar))
  | vs, 0, ref, r => .ok (vs, r, ref)
  | [], _ + 1, ref, r => .ok ([], r, ref)
  | v :: vs, l + 1, ref, r => do
    let (v, r, ref) ← decodeToWithRef v ref r
    let (vs, r, ref) ← decodeElementsTo vs l ref r
    return (v :: vs, r, ref)

end

/-- `DecodeTo` of the address of a variable: what it holds then, and what of the reader is left. -/
def DecodeTo (r : Reader) (v : GoVar) : Except GoError (GoVar × Reader) := do
  let (v, r, _) ← decodeToWithRef v {} r
  return (v, r)

end CServer.Proto
