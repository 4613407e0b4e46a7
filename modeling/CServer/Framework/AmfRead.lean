import CServer.Framework.Amf

/-! # `framework/amf.c`: the reader

A pointer into the message is the list of the bytes from it to the end of the message, and `len` is
the length of that list; what lies in memory behind the message is `beyond`. A decoder that returns
0 is `none`, and its caller then goes on from the same pointer. `Stale` is what the uninitialised
locals of `_read_integer` and `_read_double` hold.
-/
namespace CServer.Framework
open CServer.Lib

/-! ## Decoders -/

def dataPop (l : ℕ) (data : List UInt8) : Option (List UInt8) :=
  if data.length < l then none else some (data.drop l)

/-- The loop of `amf_decode_u29`. The bits that `|=` sets are zero before it. -/
def decodeU29Loop (i n : ℕ) : List UInt8 → Option (ℕ × List UInt8)
  | [] => none
  | c :: data =>
    if i ≠ 3 then
      let n := n + c.toNat % 2 ^ 7
      if c.toNat / 2 ^ 7 ≠ 0 then
        if i ≠ 2 then decodeU29Loop (i + 1) (n * 2 ^ 7) data
        else decodeU29Loop (i + 1) (n * 2 ^ 8) data
      else some (n, data)
    else some (n + c.toNat, data)

variable (data : List UInt8)

def amfDecodeU29 : Option (ℕ × List UInt8) := decodeU29Loop 0 0 data

/-- `U2SInt29`; `|` with `0xFF000000` keeps the low 24 bits. -/
def u2SInt29 (i : ℕ) : Except Fault Int32 := do
  assert (decide (i ≤ 0x1FFFFFFF))
  if i / 2 ^ 28 % 2 ≠ 0 then return Int32.ofNat (0xFF000000 + i % 2 ^ 24)
  return Int32.ofNat i

def amfDecodeDouble : Option (UInt64 × List UInt8) :=
  if data.length < 9 then none
  else some (Binary64.ofBytes ((data.drop 1).take 8), data.drop 9)

def amfDecodeInteger : Option (ℕ × List UInt8) := do
  if data.length = 1 then none
  let data ← dataPop 1 data
  amfDecodeU29 data

abbrev Refs := List (List UInt8)

def stringRefSize : ℕ := 1024

abbrev Read (α : Type) := Option (α × List UInt8 × Refs)

def amfDecodeString (refs : Refs) (data : List UInt8) :
    Except Fault (Read (List UInt8)) :=
  match data with
  | [] => .ok none
  | type :: data => do
    assert (type == amfCode .string)
    match amfDecodeU29 data with
    | none => return none
    | some (size, data) =>
      if size % 2 = 0 then
        match refs[size / 2]? with
        | none => return none
        | some s => return some (s, data, refs)
      else
        match dataPop (size / 2) data with
        | none => return none
        | some rest =>
          let s := data.take (size / 2)
          if refs.length < stringRefSize then return some (s, rest, refs ++ [s])
          else .error .outOfBounds

/-- `amf_decode_byte_array`: the low bit of the size is dropped without a look at it. -/
def amfDecodeByteArray : Except Fault (Option (List UInt8 × List UInt8)) :=
  match data with
  | [] => .ok none
  | type :: data => do
    assert (type == amfCode .byteArray)
    match amfDecodeU29 data with
    | none => return none
    | some (size, data) =>
      match dataPop (size / 2) data with
      | none => return none
      | some rest => return some (data.take (size / 2), rest)

def amfDecodeTag : Option (List UInt8) := dataPop 1 data

def amfDecodeArray : Except Fault (Option (ℕ × List UInt8)) :=
  match data with
  | [] => .ok none
  | type :: data => do
    assert (type == amfCode .array)
    match amfDecodeU29 data with
    | none => return none
    | some (size, data) =>
      if size % 2 = 0 then return none
      else
        match data with
        | [] => return none
        | name :: data => if name = 1 then return some (size / 2, data) else return none

/-! ## Readers -/

structure Stale where
  u : UInt32
  d : UInt64

def readInteger (stale : Stale) (refs : Refs) (data : List UInt8) : Except Fault (Read AmfValue) :=
  match amfDecodeInteger data with
  | none => .ok (some (.integer stale.u, data, refs))
  | some (n, rest) => .ok (some (.integer (UInt32.ofNat n), rest, refs))

def readSinteger (refs : Refs) (data : List UInt8) : Except Fault (Read AmfValue) :=
  match amfDecodeInteger data with
  | none => do return some (.sinteger (← u2SInt29 0), data, refs)
  | some (n, rest) => do return some (.sinteger (← u2SInt29 n), rest, refs)

def readString (refs : Refs) (data : List UInt8) : Except Fault (Read AmfValue) := do
  match ← amfDecodeString refs data with
  | none => return some (.string [], data, refs)
  | some (s, rest, refs) => return some (.string s, rest, refs)

def readByteArray (refs : Refs) (data : List UInt8) : Except Fault (Read AmfValue) := do
  match ← amfDecodeByteArray data with
  | none => return some (.byteArray [], data, refs)
  | some (s, rest) => return some (.byteArray s, rest, refs)

def readDouble (stale : Stale) (refs : Refs) (data : List UInt8) : Except Fault (Read AmfValue) :=
  match amfDecodeDouble data with
  | none => .ok (some (.double stale.d, data, refs))
  | some (d, rest) => .ok (some (.double d, rest, refs))

def readTag (v : AmfValue) (refs : Refs) (data : List UInt8) : Except Fault (Read AmfValue) :=
  match amfDecodeTag data with
  | none => .ok (some (v, data, refs))
  | some rest => .ok (some (v, rest, refs))

/-- The loop of `_read_array` over the children, with `read` for `_read_amf`. -/
def readChildren (read : Refs → List UInt8 → Except Fault (Read AmfValue)) :
    ℕ → Refs → List UInt8 → Except Fault (Read (List AmfValue))
  | 0, refs, data => .ok (some ([], data, refs))
  | n + 1, refs, data => do
    match ← read refs data with
    | none => return none
    | some (c, data, refs) =>
      match ← readChildren read n refs data with
      | none => return none
      | some (cs, data, refs) => return some (c :: cs, data, refs)

def readArray (read : Refs → List UInt8 → Except Fault (Read AmfValue)) (refs : Refs) (data : List UInt8) :
    Except Fault (Read AmfValue) := do
  match ← amfDecodeArray data with
  | none => return none
  | some (size, data) =>
    match ← readChildren read size refs data with
    | none => return none
    | some (child, data, refs) => return some (.array (child.map some), data, refs)

/-- `_read_amf`; the type byte is `data[0]` even where no byte of the message is left. The first
argument bounds the depth of the recursion. -/
def readAmf (stale : Stale) (beyond : Mem) : ℕ → Refs → List UInt8 → Except Fault (Read AmfValue)
  | 0, _, _ => .error .diverges
  | fuel + 1, refs, data =>
    match amfTypeOf (data.headD (beyond 0)) with
    | some .undefine => readTag .undefine refs data
    | some .null => readTag .null refs data
    | some .false => readTag .false refs data
    | some .true => readTag .true refs data
    | some .array => readArray (readAmf stale beyond fuel) refs data
    | some .integer => readInteger stale refs data
    | some .sinteger => readSinteger refs data
    | some .string => readString refs data
    | some .double => readDouble stale refs data
    | some .byteArray => readByteArray refs data
    | _ => .ok none

/-- `amf_read`: the value and the length read. A level of the recursion consumes bytes, so the
length of the message bounds the depth. -/
def amfRead (stale : Stale) (beyond : Mem) (data : List UInt8) : Except Fault (Option (AmfValue × ℕ)) := do
  match ← readAmf stale beyond (data.length + 1) [] data with
  | none => return none
  | some (v, rest, _) => return some (v, data.length - rest.length)

end CServer.Framework
