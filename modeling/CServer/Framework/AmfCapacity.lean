import CServer.Framework.Amf

/-! # `framework/amf.c`: the encoder and its capacity

The recursion of `amf_encode` over the children of an array passes the whole capacity to every child and adds up what they
return, whether a child was stored or refused.
-/
namespace CServer.Framework
open CServer.Lib List

/-! ## Leaves -/

theorem sizeHeader_eq {n : ℕ} (h : 2 * n + 1 ≤ u29Max) : sizeHeader n = 2 * n + 1 := by
  simp only [u29Max] at h
  rw [sizeHeader]
  omega

theorem s2UInt29_ok {i : Int32} (h : i.toInt ≤ 0xFFFFFFF ∧ -0x10000000 ≤ i.toInt) :
    s2UInt29 i = .ok (sintegerBits i) := by
  rw [s2UInt29, assert_of (by simp only [Bool.and_eq_true, decide_eq_true_eq]; exact h)]
  rfl

theorem sintegerBits_le (i : Int32) : sintegerBits i ≤ u29Max := by
  simp only [sintegerBits, u29Max]
  omega

theorem amfEncodeString_eq (cap : ℕ) (m : Mem) (p len : ℕ) (s : List UInt8) :
    amfEncodeString cap m p len s = amfEncodeHeaded .string (sizeHeader s.length) s cap m p len := by
  have hlen : (if s.length = 0 then strlen s else s.length) = s.length := by
    split
    · next h => rw [eq_nil_of_length_eq_zero h]; rfl
    · rfl
  rw [amfEncodeString, hlen, take_length]

theorem careful_integer {type : AmfType} (ht : type = .integer ∨ type = .sinteger) {n : ℕ}
    (h : n ≤ amfIntegerMax) :
    Careful (fun cap m p len => amfEncodeIntegerWithType cap m p len n type) (amfCode type :: u29 n) := by
  have heq : (fun cap m p len => amfEncodeIntegerWithType cap m p len n type) = amfEncodeTyped type n := by
    funext cap m p len
    rw [amfEncodeIntegerWithType, assert_of (by rcases ht with rfl | rfl <;> rfl), ok_bind,
      if_neg (Nat.not_lt.mpr h)]
  rw [heq]
  exact careful_typed type h

theorem amfEncodeInteger_double {n : UInt32} (h : amfIntegerMax < n.toNat) (cap : ℕ) (m : Mem) (p len : ℕ) :
    amfEncodeInteger cap m p len n = amfEncodeDouble cap m p len (Binary64.ofNat n.toNat) := by
  rw [amfEncodeInteger, amfEncodeIntegerWithType, assert_of (by rfl), ok_bind, if_pos h]

theorem careful_sinteger {i : Int32} (h : i.toInt ≤ 0xFFFFFFF ∧ -0x10000000 ≤ i.toInt) :
    Careful (fun cap m p len => amfEncodeSinteger cap m p len i)
      (amfCode .sinteger :: u29 (sintegerBits i)) := by
  have heq : (fun cap m p len => amfEncodeSinteger cap m p len i) =
      fun cap m p len => amfEncodeIntegerWithType cap m p len (sintegerBits i) .sinteger := by
    funext cap m p len
    rw [amfEncodeSinteger, s2UInt29_ok h, ok_bind]
  rw [heq]
  exact careful_integer (Or.inr rfl) (sintegerBits_le i)

theorem emits_leaf {v : Option AmfValue} (hleaf : IsLeaf v) (henc : Encodable v) :
    Emits (fun cap m p len => amfEncode cap m p len v) (wire v) := by
  match v, hleaf, henc with
  | none, _, _ => simpa only [amfEncode, amfEncodeNode, wire, wireNode, amfEncodeNull] using (careful_tag .null).toEmits
  | some .undefine, _, _ => simpa only [amfEncode, amfEncodeNode, wire, wireNode, amfEncodeUndefine] using (careful_tag .undefine).toEmits
  | some .null, _, _ => simpa only [amfEncode, amfEncodeNode, wire, wireNode, amfEncodeNull] using (careful_tag .null).toEmits
  | some .false, _, _ => simpa only [amfEncode, amfEncodeNode, wire, wireNode, amfEncodeFalse] using (careful_tag .false).toEmits
  | some .true, _, _ => simpa only [amfEncode, amfEncodeNode, wire, wireNode, amfEncodeTrue] using (careful_tag .true).toEmits
  | some (.integer n), _, _ =>
    by_cases hn : amfIntegerMax < n.toNat
    · simpa only [amfEncode, amfEncodeNode, wire, wireNode, hn, if_true, amfEncodeInteger_double hn] using
        emits_double (Binary64.ofNat n.toNat)
    · simpa only [amfEncode, amfEncodeNode, wire, wireNode, hn, if_false, amfEncodeInteger] using
        (careful_integer (Or.inl rfl) (Nat.not_lt.mp hn)).toEmits
  | some (.sinteger i), _, h =>
    simp only [Encodable, EncodableNode] at h
    simpa only [amfEncode, amfEncodeNode, wire, wireNode] using (careful_sinteger h).toEmits
  | some (.double d), _, _ => simpa only [amfEncode, amfEncodeNode, wire, wireNode] using emits_double d
  | some (.string s), _, h =>
    simp only [Encodable, EncodableNode] at h
    simpa only [amfEncode, amfEncodeNode, wire, wireNode, amfEncodeString_eq, sizeHeader_eq h] using
      (careful_headed .string h s).toEmits
  | some (.byteArray s), _, h =>
    simp only [Encodable, EncodableNode] at h
    simpa only [amfEncode, amfEncodeNode, wire, wireNode, amfEncodeByteArray, sizeHeader_eq h] using
      (careful_headed .byteArray h s).toEmits

theorem careful_array {size : ℕ} (h : 2 * size + 1 ≤ u29Max) :
    Careful (fun cap m p len => amfEncodeArray cap m p len size)
      (amfCode .array :: (u29 (2 * size + 1) ++ [0x01])) := by
  simpa only [amfEncodeArray, sizeHeader_eq h] using careful_headed .array h [0x01]

/-! ## With room -/

theorem wire_array_length (child : List (Option AmfValue)) :
    (wire (some (.array child))).length =
      (amfCode .array :: (u29 (2 * child.length + 1) ++ [0x01])).length + (wireChildren child).length := by
  simp only [wire, wireNode, length_append]

theorem amfEncode_complete (dlen cap : ℕ) : ∀ (v : Option AmfValue) (m : Mem) (p : ℕ), Encodable v →
    (wire v).length ≤ dlen → p + (wire v).length ≤ cap →
    amfEncode cap m p dlen v = .ok ((wire v).length, blit m p (wire v)) := by
  refine amfValue_induction (Q := fun child => ∀ (m : Mem) (p : ℕ), EncodableChildren child →
    (wireChildren child).length ≤ dlen → p + (wireChildren child).length ≤ cap →
    amfEncodeChildren cap m p dlen child =
      .ok ((wireChildren child).length, blit m p (wireChildren child))) ?_ ?_ ?_ ?_
  · intro v hleaf m p henc hlen hcap
    exact (emits_leaf hleaf henc).complete cap m p dlen hlen hcap
  · intro child ih m p henc hlen hcap
    simp only [Encodable, EncodableNode] at henc
    rw [wire_array_length] at hlen hcap ⊢
    rw [amfEncode, amfEncodeNode, (careful_array henc.1).complete cap m p dlen (by omega) (by omega), ok_bind]
    simp only
    rw [ih _ _ henc.2 (by omega) (by omega), ok_bind, wire, wireNode, blit_append]
    rfl
  · intro m p _ _ _
    simp only [amfEncodeChildren, wireChildren, length_nil, blit_nil]
  · intro c child ihc ih m p henc hlen hcap
    simp only [EncodableChildren] at henc
    simp only [wireChildren, length_append] at hlen hcap ⊢
    rw [amfEncodeChildren, ihc m p henc.1 (by omega) (by omega), ok_bind]
    simp only
    rw [ih _ _ henc.2 (by omega) (by omega), ok_bind, blit_append]
    rfl

theorem amfGetLengthU29_ok {val : ℕ} (h : val ≤ u29Max) : amfGetLengthU29 val = .ok (u29 val).length := by
  have h4 : val ≤ 0x1FFFFFFF := h
  unfold amfGetLengthU29 u29
  split_ifs <;> rfl

theorem amfGetLengthInteger_ok {n : ℕ} (h : n ≤ amfIntegerMax) :
    amfGetLengthInteger n = .ok ((u29 n).length + 1) := by
  have hle : ¬ 0x1FFFFFFF < n := Nat.not_lt.mpr h
  rw [amfGetLengthInteger, if_neg hle, amfGetLengthU29_ok h, ok_bind, pure_eq_ok, Nat.add_comm]

theorem amfGetLengthString_ok {n : ℕ} (h : 2 * n + 1 ≤ u29Max) :
    amfGetLengthString n = .ok ((u29 (2 * n + 1)).length + n + 1) := by
  rw [amfGetLengthString, sizeHeader_eq h, amfGetLengthU29_ok h, ok_bind, pure_eq_ok]
  congr 1
  omega

theorem amfGetEncodeLength_ok : ∀ v : Option AmfValue, Encodable v →
    amfGetEncodeLength v = .ok (wire v).length := by
  refine amfValue_induction (Q := fun child => EncodableChildren child →
    amfGetChildrenLength child = .ok (wireChildren child).length) ?_ ?_ ?_ ?_
  · intro v hleaf henc
    match v, hleaf, henc with
    | none, _, _ => rfl
    | some .undefine, _, _ => rfl
    | some .null, _, _ => rfl
    | some .false, _, _ => rfl
    | some .true, _, _ => rfl
    | some (.double d), _, _ => rfl
    | some (.integer n), _, _ =>
      by_cases hn : amfIntegerMax < n.toNat
      · have hlt : 0x1FFFFFFF < n.toNat := hn
        simp only [amfGetEncodeLength, amfGetNodeLength, amfGetLengthInteger, wire, wireNode, hn, hlt, if_true]
        rfl
      · simp only [amfGetEncodeLength, amfGetNodeLength, wire, wireNode, hn, if_false, length_cons]
        exact amfGetLengthInteger_ok (Nat.not_lt.mp hn)
    | some (.sinteger i), _, h =>
      simp only [Encodable, EncodableNode] at h
      simp only [amfGetEncodeLength, amfGetNodeLength, amfGetLengthSinteger, s2UInt29_ok h, ok_bind, wire,
        wireNode, length_cons]
      exact amfGetLengthInteger_ok (sintegerBits_le i)
    | some (.string s), _, h =>
      simp only [Encodable, EncodableNode] at h
      simp only [amfGetEncodeLength, amfGetNodeLength, wire, wireNode, length_cons, length_append]
      exact amfGetLengthString_ok h
    | some (.byteArray s), _, h =>
      simp only [Encodable, EncodableNode] at h
      simp only [amfGetEncodeLength, amfGetNodeLength, amfGetLengthByteArray, wire, wireNode, length_cons,
        length_append]
      exact amfGetLengthString_ok h
  · intro child ih henc
    simp only [Encodable, EncodableNode] at henc
    rw [wire_array_length, amfGetEncodeLength, amfGetNodeLength, amfGetLengthArray, sizeHeader_eq henc.1,
      amfGetLengthU29_ok henc.1, ok_bind, pure_eq_ok, ok_bind, ih henc.2, ok_bind, pure_eq_ok]
    simp only [length_cons, length_append, length_nil]
    congr 1
    omega
  · intro _
    rfl
  · intro c child ihc ih henc
    simp only [EncodableChildren] at henc
    rw [amfGetChildrenLength, ihc henc.1, ok_bind, ih henc.2, ok_bind, wireChildren, length_append]
    rfl

/-- A call that returns has returned at most the length of the complete encoding, and that length
only with the last byte stored. -/
theorem amfEncode_returns (dlen cap : ℕ) : ∀ (v : Option AmfValue) (m : Mem) (p r : ℕ) (m' : Mem),
    Encodable v → amfEncode cap m p dlen v = .ok (r, m') →
    r ≤ (wire v).length ∧ (r = (wire v).length → p + r ≤ cap) := by
  refine amfValue_induction (Q := fun child => ∀ (m : Mem) (p r : ℕ) (m' : Mem), EncodableChildren child →
    amfEncodeChildren cap m p dlen child = .ok (r, m') →
    r ≤ (wireChildren child).length ∧ (p ≤ cap → r = (wireChildren child).length → p + r ≤ cap)) ?_ ?_ ?_ ?_
  · intro v hleaf m p r m' henc hr
    rcases (emits_leaf hleaf henc).returns cap m p dlen r m' hr with ⟨h1, -, h3⟩ | ⟨h1, h2⟩
    · exact ⟨by omega, fun _ => h3⟩
    · exact ⟨by omega, fun h => by omega⟩
  · intro child ih m p r m' henc hr
    simp only [Encodable, EncodableNode] at henc
    rw [amfEncode, amfEncodeNode] at hr
    obtain ⟨⟨wlen, m1⟩, hw, hr⟩ := bind_ok_iff.mp hr
    obtain ⟨⟨w, m2⟩, hc, hr⟩ := bind_ok_iff.mp hr
    simp only [pure_eq_ok, ok_pair_iff] at hr
    obtain ⟨hle, hcap⟩ := ih m1 (p + wlen) w m2 henc.2 hc
    rw [wire_array_length]
    rcases (careful_array henc.1).returns cap m p dlen wlen m1 hw with ⟨h1, -, h3⟩ | ⟨h1, h2⟩
    · refine ⟨by omega, fun h => ?_⟩
      have := hcap h3 (by omega)
      omega
    · refine ⟨by omega, fun h => ?_⟩
      omega
  · intro m p r m' _ hr
    simp only [amfEncodeChildren, ok_pair_iff] at hr
    exact ⟨by omega, fun hp _ => by omega⟩
  · intro c child ihc ih m p r m' henc hr
    simp only [EncodableChildren] at henc
    rw [amfEncodeChildren] at hr
    obtain ⟨⟨w, m1⟩, hw, hr⟩ := bind_ok_iff.mp hr
    obtain ⟨⟨ws, m2⟩, hc, hr⟩ := bind_ok_iff.mp hr
    simp only [pure_eq_ok, ok_pair_iff] at hr
    obtain ⟨hle, hcap⟩ := ihc m p w m1 henc.1 hw
    obtain ⟨hles, hcaps⟩ := ih m1 (p + w) ws m2 henc.2 hc
    rw [wireChildren, length_append]
    refine ⟨by omega, fun hp h => ?_⟩
    have := hcaps (hcap (by omega)) (by omega)
    omega

/-! ## Without room -/

/-- A header with `extra` bytes after it is refused, and not past its capacity. -/
def HeaderRefused (size extra dlen : ℕ) : Prop :=
  dlen = 0 ∨ sizeHeader size ≤ u29Max ∧ dlen < 1 + (u29 (sizeHeader size)).length + extra

mutual

/-- Every node of the tree is refused at the capacity `dlen` before a byte is stored past it. A
double never is, except at capacity 0. -/
def Refused (dlen : ℕ) : Option AmfValue → Prop
  | none => dlen = 0
  | some v => RefusedNode dlen v

def RefusedNode (dlen : ℕ) : AmfValue → Prop
  | .integer n => dlen = 0 ∨ n.toNat ≤ amfIntegerMax ∧ dlen < 1 + (u29 n.toNat).length
  | .sinteger i =>
    (i.toInt ≤ 0xFFFFFFF ∧ -0x10000000 ≤ i.toInt) ∧ dlen < 1 + (u29 (sintegerBits i)).length
  | .string s => HeaderRefused s.length s.length dlen
  | .byteArray s => HeaderRefused s.length s.length dlen
  | .array child => HeaderRefused child.length 1 dlen ∧ RefusedChildren dlen child
  | _ => dlen = 0

def RefusedChildren (dlen : ℕ) : List (Option AmfValue) → Prop
  | [] => True
  | c :: child => Refused dlen c ∧ RefusedChildren dlen child

end

def ReturnsZero (enc : ℕ → Mem → ℕ → ℕ → Encoded) (m : Mem) (p dlen : ℕ) : Prop :=
  ∃ m', enc (p + dlen) m p dlen = .ok (0, m')

theorem Careful.returnsZero_iff {enc : ℕ → Mem → ℕ → ℕ → Encoded} {bs : List UInt8} (h : Careful enc bs)
    (hbs : 0 < bs.length) (m : Mem) (p dlen : ℕ) : ReturnsZero enc m p dlen ↔ dlen < bs.length := by
  constructor
  · rintro ⟨m', hm'⟩
    rcases h.returns _ _ _ _ _ _ hm' with ⟨h1, -, -⟩ | ⟨-, h2⟩
    · omega
    · exact h2
  · intro hlt
    exact h.refuses _ m p dlen hlt (by omega)

theorem tag_returnsZero (type : AmfType) (m : Mem) (p dlen : ℕ) :
    ReturnsZero (amfEncodeTag type) m p dlen ↔ dlen = 0 := by
  rw [(careful_tag type).returnsZero_iff (by simp), length_singleton]
  omega

theorem double_returnsZero (d : UInt64) (m : Mem) (p dlen : ℕ) :
    ReturnsZero (fun cap m p len => amfEncodeDouble cap m p len d) m p dlen ↔ dlen = 0 := by
  constructor
  · rintro ⟨m', hm'⟩
    simp only [amfEncodeDouble] at hm'
    split at hm'
    · omega
    obtain ⟨m1, -, hm'⟩ := bind_ok_iff.mp hm'
    obtain ⟨m2, hm2, hm'⟩ := bind_ok_iff.mp hm'
    have hle := (store_inv hm2).1
    rw [Binary64.toBytes_length] at hle
    rw [if_neg (by omega)] at hm'
    simp at hm'
  · rintro rfl
    exact ⟨m, rfl⟩

theorem amfEncodeU29_assertion {val : ℕ} (h : ¬ val ≤ u29Max) (cap : ℕ) (m : Mem) (p len : ℕ) :
    amfEncodeU29 cap m p len val = .error .assertion := by
  simp only [u29Max] at h
  rw [amfEncodeU29, if_neg (by omega), if_neg (by omega), if_neg (by omega), if_neg (by omega)]

theorem headed_returnsZero (type : AmfType) (size : ℕ) (tail : List UInt8) (m : Mem) (p dlen : ℕ) :
    ReturnsZero (amfEncodeHeaded type (sizeHeader size) tail) m p dlen ↔
      HeaderRefused size tail.length dlen := by
  by_cases hz : dlen = 0
  · subst hz
    exact ⟨fun _ => Or.inl rfl, fun _ => ⟨m, rfl⟩⟩
  by_cases h : sizeHeader size ≤ u29Max
  · rw [(careful_headed type h tail).returnsZero_iff (by simp), length_cons, length_append]
    constructor
    · intro hlt
      exact Or.inr ⟨h, by omega⟩
    · rintro (h0 | ⟨-, hlt⟩)
      · omega
      · omega
  · constructor
    · rintro ⟨m', hm'⟩
      obtain ⟨⟨w, m1⟩, hw, -⟩ := bind_ok_iff.mp hm'
      rw [amfEncodeTyped, if_neg (by omega)] at hw
      obtain ⟨m2, -, hw⟩ := bind_ok_iff.mp hw
      rw [amfEncodeU29_assertion h] at hw
      cases hw
    · rintro (h0 | ⟨hle, -⟩)
      · omega
      · exact absurd hle h

theorem sinteger_returnsZero (i : Int32) (m : Mem) (p dlen : ℕ) :
    ReturnsZero (fun cap m p len => amfEncodeSinteger cap m p len i) m p dlen ↔
      (i.toInt ≤ 0xFFFFFFF ∧ -0x10000000 ≤ i.toInt) ∧ dlen < 1 + (u29 (sintegerBits i)).length := by
  by_cases h : i.toInt ≤ 0xFFFFFFF ∧ -0x10000000 ≤ i.toInt
  · rw [(careful_sinteger h).returnsZero_iff (by simp), length_cons]
    exact ⟨fun hlt => ⟨h, by omega⟩, fun hlt => by omega⟩
  · refine ⟨?_, fun hlt => absurd hlt.1 h⟩
    rintro ⟨m', hm'⟩
    have hfault : s2UInt29 i = .error .assertion := by
      have hc : (decide (i.toInt ≤ 0xFFFFFFF) && decide (-0x10000000 ≤ i.toInt)) = false := by
        rw [Bool.and_eq_false_iff, decide_eq_false_iff_not, decide_eq_false_iff_not]
        omega
      rw [s2UInt29, hc]
      rfl
    simp only [amfEncodeSinteger, hfault] at hm'
    cases hm'

theorem integer_returnsZero (n : UInt32) (m : Mem) (p dlen : ℕ) :
    ReturnsZero (fun cap m p len => amfEncodeInteger cap m p len n) m p dlen ↔
      dlen = 0 ∨ n.toNat ≤ amfIntegerMax ∧ dlen < 1 + (u29 n.toNat).length := by
  by_cases hn : amfIntegerMax < n.toNat
  · simp only [amfEncodeInteger_double hn, double_returnsZero]
    omega
  · simp only [amfEncodeInteger]
    rw [(careful_integer (Or.inl rfl) (Nat.not_lt.mp hn)).returnsZero_iff (by simp), length_cons]
    omega

theorem leaf_returnsZero {v : Option AmfValue} (hleaf : IsLeaf v) (m : Mem) (p dlen : ℕ) :
    ReturnsZero (fun cap m p len => amfEncode cap m p len v) m p dlen ↔ Refused dlen v := by
  match v, hleaf with
  | none, _ => exact tag_returnsZero .null m p dlen
  | some .undefine, _ => exact tag_returnsZero .undefine m p dlen
  | some .null, _ => exact tag_returnsZero .null m p dlen
  | some .false, _ => exact tag_returnsZero .false m p dlen
  | some .true, _ => exact tag_returnsZero .true m p dlen
  | some (.integer n), _ => exact integer_returnsZero n m p dlen
  | some (.sinteger i), _ => exact sinteger_returnsZero i m p dlen
  | some (.double d), _ => exact double_returnsZero d m p dlen
  | some (.string s), _ =>
    simp only [amfEncode, amfEncodeNode, amfEncodeString_eq]
    exact headed_returnsZero .string s.length s m p dlen
  | some (.byteArray s), _ => exact headed_returnsZero .byteArray s.length s m p dlen

theorem returnsZero_seq {first second : ℕ → Mem → ℕ → ℕ → Encoded} {b : Prop} {m : Mem} {p dlen : ℕ}
    (hsecond : ∀ m, ReturnsZero second m p dlen ↔ b) :
    ReturnsZero (fun cap m p len => do
      let (w, m) ← first cap m p len
      let (ws, m) ← second cap m (p + w) len
      return (w + ws, m)) m p dlen ↔ ReturnsZero first m p dlen ∧ b := by
  constructor
  · rintro ⟨m', hm'⟩
    obtain ⟨⟨w, m1⟩, hw, hm'⟩ := bind_ok_iff.mp hm'
    obtain ⟨⟨ws, m2⟩, hws, hm'⟩ := bind_ok_iff.mp hm'
    simp only [pure_eq_ok, ok_pair_iff] at hm'
    obtain ⟨rfl, rfl⟩ : w = 0 ∧ ws = 0 := by omega
    exact ⟨⟨m1, hw⟩, (hsecond m1).mp ⟨m2, hws⟩⟩
  · rintro ⟨⟨m1, hw⟩, hb⟩
    obtain ⟨m2, hws⟩ := (hsecond m1).mpr hb
    refine ⟨m2, ?_⟩
    simp only [hw, ok_bind, Nat.add_zero, hws]
    rfl

theorem amfEncode_returnsZero (dlen : ℕ) : ∀ (v : Option AmfValue) (m : Mem) (p : ℕ),
    ReturnsZero (fun cap m p len => amfEncode cap m p len v) m p dlen ↔ Refused dlen v := by
  refine amfValue_induction (Q := fun child => ∀ (m : Mem) (p : ℕ),
    ReturnsZero (fun cap m p len => amfEncodeChildren cap m p len child) m p dlen ↔
      RefusedChildren dlen child) ?_ ?_ ?_ ?_
  · intro v hleaf m p
    exact leaf_returnsZero hleaf m p dlen
  · intro child ih m p
    have hheader := headed_returnsZero .array child.length [0x01] m p dlen
    simp only [Refused, RefusedNode, amfEncode, amfEncodeNode]
    rw [returnsZero_seq fun m => ih m p]
    exact and_congr_left fun _ => hheader
  · intro m p
    simp only [RefusedChildren, iff_true]
    exact ⟨m, rfl⟩
  · intro c child ihc ih m p
    simp only [RefusedChildren, amfEncodeChildren]
    rw [returnsZero_seq fun m => ih m p, ihc m p]

/-! ## The capacity -/

/-- `amf_encode` respects its capacity: no fault in an object of `dlen` bytes, and the result is 0 or
the length of the complete encoding. -/
def CapacitySafe (m : Mem) (dlen : ℕ) (v : Option AmfValue) : Prop :=
  ∃ r m', amfEncode dlen m 0 dlen v = .ok (r, m') ∧ (r = 0 ∨ Encodable v ∧ r = (wire v).length)

/-- The capacity is respected exactly where the complete encoding fits or every single node is
refused: where some node fits and the tree does not, it is exceeded or a node is left out. -/
theorem capacitySafe_iff (m : Mem) (dlen : ℕ) (v : Option AmfValue) :
    CapacitySafe m dlen v ↔ (Encodable v ∧ (wire v).length ≤ dlen) ∨ Refused dlen v := by
  have hzero := amfEncode_returnsZero dlen v m 0
  simp only [ReturnsZero, Nat.zero_add] at hzero
  constructor
  · rintro ⟨r, m', hr, rfl | ⟨henc, hlen⟩⟩
    · exact Or.inr (hzero.mp ⟨m', hr⟩)
    · have := (amfEncode_returns dlen dlen v m 0 r m' henc hr).2 hlen
      exact Or.inl ⟨henc, by omega⟩
  · rintro (⟨henc, hlen⟩ | href)
    · exact ⟨_, _, amfEncode_complete dlen dlen v m 0 henc hlen (by omega), Or.inr ⟨henc, rfl⟩⟩
    · obtain ⟨m', hm'⟩ := hzero.mpr href
      exact ⟨0, m', hm', Or.inl rfl⟩

/-- `[null]` in three bytes stores the child past the end; `[0x1FFFFFFF]` in four returns the length
of the bare header. -/
theorem capacity_exceeded :
    ¬ CapacitySafe (fun _ => 0) 3 (some (.array [some .null])) ∧
      ¬ CapacitySafe (fun _ => 0) 4 (some (.array [some (.integer 0x1FFFFFFF)])) := by
  constructor
  · rintro ⟨r, m', hr, -⟩
    have hfault : amfEncode 3 (fun _ => 0) 0 3 (some (.array [some .null])) = .error .outOfBounds := rfl
    rw [hfault] at hr
    cases hr
  · rintro ⟨r, m', hr, hlen⟩
    have hr3 : (amfEncode 4 (fun _ => 0) 0 4 (some (.array [some (.integer 0x1FFFFFFF)]))).map Prod.fst =
        .ok 3 := rfl
    rw [hr] at hr3
    obtain rfl : r = 3 := Except.ok.inj hr3
    rcases hlen with h0 | ⟨-, h8⟩
    · cases h0
    · exact absurd h8 (by decide)

end CServer.Framework
