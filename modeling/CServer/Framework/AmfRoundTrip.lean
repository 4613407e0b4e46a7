import CServer.Framework.AmfCapacity
import CServer.Framework.AmfWire

/-! # `framework/amf.c`: what is written is read back

The complete encoding of a tree without signed integers is in the format, and the value it encodes
is the tree up to what the encoder normalises. A signed integer need not come back: `U2SInt29`
sets the top eight bits of a negative one, four of the 29 among them.
-/
namespace CServer.Framework
open CServer.Lib List

mutual

/-- What the encoder makes of a value: a null child is a null node, and an integer above
`AMF_INTEGER_MAX` a double. -/
def normalise : Option AmfValue → AmfValue
  | none => .null
  | some v => normaliseNode v

def normaliseNode : AmfValue → AmfValue
  | .integer n => if amfIntegerMax < n.toNat then .double (Binary64.ofNat n.toNat) else .integer n
  | .array child => .array ((normaliseChildren child).map some)
  | .undefine => .undefine
  | .null => .null
  | .false => .false
  | .true => .true
  | .sinteger i => .sinteger i
  | .double d => .double d
  | .string s => .string s
  | .byteArray s => .byteArray s

def normaliseChildren : List (Option AmfValue) → List AmfValue
  | [] => []
  | c :: child => normalise c :: normaliseChildren child

end

mutual

def Unsigned : Option AmfValue → Prop
  | none => True
  | some v => UnsignedNode v

def UnsignedNode : AmfValue → Prop
  | .sinteger _ => False
  | .array child => UnsignedChildren child
  | _ => True

def UnsignedChildren : List (Option AmfValue) → Prop
  | [] => True
  | c :: child => Unsigned c ∧ UnsignedChildren child

end

mutual

def strings : Option AmfValue → Refs
  | none => []
  | some v => stringsNode v

def stringsNode : AmfValue → Refs
  | .string s => [s]
  | .array child => stringsChildren child
  | _ => []

def stringsChildren : List (Option AmfValue) → Refs
  | [] => []
  | c :: child => strings c ++ stringsChildren child

end

theorem normaliseChildren_length (child : List (Option AmfValue)) :
    (normaliseChildren child).length = child.length := by
  induction child with
  | nil => rfl
  | cons c child ih => rw [normaliseChildren, length_cons, length_cons, ih]

theorem leaf_wire {v : Option AmfValue} (hleaf : IsLeaf v) (henc : Encodable v) (huns : Unsigned v) (refs : Refs) :
    Leaf refs (wire v) (normalise v) (refs ++ strings v) := by
  match v, hleaf, henc, huns with
  | none, _, _, _ => exact (append_nil refs).symm ▸ Leaf.null
  | some .undefine, _, _, _ => exact (append_nil refs).symm ▸ Leaf.undefine
  | some .null, _, _, _ => exact (append_nil refs).symm ▸ Leaf.null
  | some .false, _, _, _ => exact (append_nil refs).symm ▸ Leaf.false
  | some .true, _, _, _ => exact (append_nil refs).symm ▸ Leaf.true
  | some (.integer n), _, _, _ =>
    simp only [wire, wireNode, normalise, normaliseNode, strings, stringsNode, append_nil]
    by_cases hn : amfIntegerMax < n.toNat
    · simp only [hn, if_true]
      have h : Leaf refs _ _ refs := .double (Binary64.toBytes_length (Binary64.ofNat n.toNat))
      rwa [Binary64.ofBytes_toBytes] at h
    · simp only [hn, if_false]
      have h : Leaf refs _ _ refs := .integer (isU29_u29 (n := n.toNat) (Nat.not_lt.mp hn))
      rwa [UInt32.ofNat_toNat] at h
  | some (.double d), _, _, _ =>
    simp only [wire, wireNode, normalise, normaliseNode, strings, stringsNode, append_nil]
    have h : Leaf refs _ _ refs := .double (Binary64.toBytes_length d)
    rwa [Binary64.ofBytes_toBytes] at h
  | some (.string s), _, h, _ =>
    simp only [Encodable, EncodableNode] at h
    exact .string (isU29_u29 h)
  | some (.byteArray s), _, h, _ =>
    simp only [Encodable, EncodableNode] at h
    simp only [wire, wireNode, normalise, normaliseNode, strings, stringsNode, append_nil]
    exact .byteArray (isU29_u29 h) (by omega)
  | some (.sinteger i), _, _, h => exact absurd h id

theorem items_wire : ∀ (v : Option AmfValue) (refs : Refs), Encodable v → Unsigned v →
    Items refs (wire v) [normalise v] (refs ++ strings v) := by
  refine amfValue_induction (Q := fun child => ∀ refs, EncodableChildren child → UnsignedChildren child →
    Items refs (wireChildren child) (normaliseChildren child) (refs ++ stringsChildren child)) ?_ ?_ ?_ ?_
  · intro v hleaf refs henc huns
    exact (leaf_wire hleaf henc huns refs).items
  · intro child ih refs henc huns
    simp only [Encodable, EncodableNode] at henc
    simp only [Unsigned, UnsignedNode] at huns
    have hheader := isU29_u29 henc.1
    rw [← normaliseChildren_length] at hheader
    have h := Items.wrap hheader (ih refs henc.2 huns)
    rw [normaliseChildren_length] at h
    simpa only [wire, wireNode, normalise, normaliseNode, strings, stringsNode, cons_append,
      append_assoc, nil_append] using h
  · intro refs _ _
    simp only [wireChildren, normaliseChildren, stringsChildren, append_nil]
    exact .nil refs
  · intro c child ihc ih refs henc huns
    simp only [EncodableChildren] at henc
    simp only [UnsignedChildren] at huns
    have h := (ihc refs henc.1 huns.1).append (ih _ henc.2 huns.2)
    simpa only [wireChildren, normaliseChildren, stringsChildren, append_assoc, singleton_append]
      using h

/-- `amf_encode` with the capacity `amf_get_encode_length` asks for, and `amf_read` of what it wrote and
whatever follows. -/
theorem amfRead_amfEncode (v : Option AmfValue) (henc : Encodable v) (huns : Unsigned v)
    (hstrings : (strings v).length ≤ stringRefSize) :
    ∃ need, amfGetEncodeLength v = .ok need ∧ ∀ (dlen : ℕ) (m : Mem), need ≤ dlen →
      ∃ r m', amfEncode dlen m 0 dlen v = .ok (r, m') ∧ ∀ (stale : Stale) (beyond : Mem) (trailing : List UInt8),
        amfRead stale beyond (slice m' 0 r ++ trailing) = .ok (some (normalise v, r)) := by
  refine ⟨_, amfGetEncodeLength_ok v henc, fun dlen m hdlen => ?_⟩
  refine ⟨_, _, amfEncode_complete dlen dlen v m 0 henc hdlen (by omega), fun stale beyond trailing => ?_⟩
  rw [slice_blit]
  exact (items_wire v [] henc huns).amfRead hstrings trailing stale beyond

theorem amfRead_amfEncode_nested :
    ∃ need, amfGetEncodeLength (some (.array [none, some (.array [some (.string [65])]),
        some (.integer 0xFFFFFFFF)])) = .ok need ∧ ∀ (dlen : ℕ) (m : Mem), need ≤ dlen →
      ∃ r m', amfEncode dlen m 0 dlen (some (.array [none, some (.array [some (.string [65])]),
        some (.integer 0xFFFFFFFF)])) = .ok (r, m') ∧
        ∀ (stale : Stale) (beyond : Mem) (trailing : List UInt8),
          amfRead stale beyond (slice m' 0 r ++ trailing) =
            .ok (some (.array [some .null, some (.array [some (.string [65])]),
              some (.double (Binary64.ofNat 0xFFFFFFFF))], r)) := by
  have h := amfRead_amfEncode (some (.array [none, some (.array [some (.string [65])]),
    some (.integer 0xFFFFFFFF)])) ?_ ?_ (by decide)
  · exact h
  · simp [Encodable, EncodableNode, EncodableChildren, u29Max]
  · simp [Unsigned, UnsignedNode, UnsignedChildren]

end CServer.Framework
