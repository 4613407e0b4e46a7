import CServer.Framework.AmfRoundTrip

/-! # `framework/amf.c`: predicted lengths, signed integers and `amf_skip`

The predicted length is the length of the complete encoding. A signed integer below -2^24 comes back
as another one. `amf_skip` passes the same bytes as the reader at a leaf that is not a byte array;
at an array it looks for the first child where the array itself begins, and a byte array it hands to
the decoder of strings.
-/
namespace CServer.Framework
open CServer.Lib List

/-! ## The predicted length -/

/-- The payload `send_amf_message` sends: `message` has as many bytes as are predicted, and holds
what was on the stack before. -/
def sendAmfMessage (message : Mem) (v : Option AmfValue) : Except Fault (List UInt8) := do
  let len ← amfGetEncodeLength v
  let (offset, message) ← amfEncode len message 0 len v
  return slice message 0 offset

/-- At every capacity from the predicted length on the encoder returns that length, and what is sent
from the buffer of that length is the encoding alone. -/
theorem amfEncode_predicted (v : Option AmfValue) (henc : Encodable v) :
    ∃ need bs, amfGetEncodeLength v = .ok need ∧ bs.length = need ∧
      (∀ cap m p dlen, need ≤ dlen → p + need ≤ cap → amfEncode cap m p dlen v = .ok (need, blit m p bs)) ∧
      ∀ message, sendAmfMessage message v = .ok bs := by
  have hlen := amfGetEncodeLength_ok v henc
  refine ⟨_, wire v, hlen, rfl, fun cap m p dlen hdlen hcap => amfEncode_complete dlen cap v m p henc hdlen hcap, ?_⟩
  intro message
  rw [sendAmfMessage, hlen, ok_bind, amfEncode_complete _ _ v message 0 henc le_rfl (by omega), ok_bind]
  simp only [pure_eq_ok, slice_blit]

theorem amfEncode_predicted_nested :
    ∃ need bs, amfGetEncodeLength (some (.array [none, some (.array [some (.sinteger (-5))]),
        some (.integer 0xFFFFFFFF)])) = .ok need ∧ bs.length = need ∧
      (∀ cap m p dlen, need ≤ dlen → p + need ≤ cap →
        amfEncode cap m p dlen (some (.array [none, some (.array [some (.sinteger (-5))]),
          some (.integer 0xFFFFFFFF)])) = .ok (need, blit m p bs)) ∧
      ∀ message, sendAmfMessage message (some (.array [none, some (.array [some (.sinteger (-5))]),
        some (.integer 0xFFFFFFFF)])) = .ok bs := by
  refine amfEncode_predicted _ ?_
  have hrange : (-5 : Int32).toInt ≤ 0xFFFFFFF ∧ -0x10000000 ≤ (-5 : Int32).toInt := by decide
  simp only [Encodable, EncodableNode, EncodableChildren, u29Max, length_cons, length_nil, hrange]
  decide

/-! ## Signed integers -/

/-- `amf_decode_sinteger`: the integer and what is left; after a failure the integer is that of 0. -/
def amfDecodeSinteger (data : List UInt8) : Except Fault (Int32 × Option (List UInt8)) :=
  match amfDecodeInteger data with
  | none => do return (← u2SInt29 0, none)
  | some (u, rest) => do return (← u2SInt29 u, some rest)

theorem toInt_ofNat (n : ℕ) :
    (Int32.ofNat n).toInt = if (n : ℤ) % 2 ^ 32 < 2 ^ 31 then (n : ℤ) % 2 ^ 32 else (n : ℤ) % 2 ^ 32 - 2 ^ 32 := by
  rw [Int32.toInt_ofNat', Int.bmod_def]
  rfl

/-- Folding and unfolding the sign: the top eight bits of a negative number are set, of which only
the top three are certain to have been. -/
theorem u2SInt29_sintegerBits {i : Int32} (h : i.toInt ≤ 0xFFFFFFF ∧ -0x10000000 ≤ i.toInt) :
    ∃ j, u2SInt29 (sintegerBits i) = .ok j ∧ (j = i ↔ -0x1000000 ≤ i.toInt) := by
  have hle : sintegerBits i ≤ 0x1FFFFFFF := sintegerBits_le i
  rw [u2SInt29, assert_of (decide_eq_true hle), ok_bind]
  by_cases hneg : i.toInt < 0
  · have hbits : (sintegerBits i : ℤ) = i.toInt + 2 ^ 29 := by
      rw [sintegerBits]
      omega
    have hset : sintegerBits i / 2 ^ 28 % 2 ≠ 0 := by omega
    have hvalue : (Int32.ofNat (0xFF000000 + sintegerBits i % 2 ^ 24)).toInt =
        (sintegerBits i % 2 ^ 24 : ℕ) - 2 ^ 24 := by
      rw [toInt_ofNat, if_neg (by omega)]
      omega
    rw [if_pos hset]
    refine ⟨_, rfl, ?_⟩
    rw [← Int32.toInt_inj, hvalue]
    omega
  · have hbits : (sintegerBits i : ℤ) = i.toInt := by
      rw [sintegerBits]
      omega
    have hclear : ¬ sintegerBits i / 2 ^ 28 % 2 ≠ 0 := by omega
    have hvalue : (Int32.ofNat (sintegerBits i)).toInt = i.toInt := by
      rw [toInt_ofNat, if_pos (by omega)]
      omega
    rw [if_neg hclear]
    refine ⟨_, rfl, ?_⟩
    rw [← Int32.toInt_inj, hvalue]
    omega

/-- The encoder writes, wherever there is room, bytes that decode to the integer, whatever follows
them, and nothing but these bytes is consumed. -/
def SintegerRoundTrips (i : Int32) : Prop :=
  ∃ bs, (∀ cap m p len, bs.length ≤ len → p + bs.length ≤ cap →
      amfEncodeSinteger cap m p len i = .ok (bs.length, blit m p bs)) ∧
    ∀ trailing, amfDecodeSinteger (bs ++ trailing) = .ok (i, some trailing)

theorem amfDecodeSinteger_wire {i j : Int32} (hj : u2SInt29 (sintegerBits i) = .ok j) (trailing : List UInt8) :
    amfDecodeSinteger (amfCode .sinteger :: u29 (sintegerBits i) ++ trailing) = .ok (j, some trailing) := by
  rw [amfDecodeSinteger, amfDecodeInteger_complete (isU29_u29 (sintegerBits_le i))]
  simp only [hj, ok_bind, pure_eq_ok]

theorem sintegerRoundTrips_iff {i j : Int32} (h : i.toInt ≤ 0xFFFFFFF ∧ -0x10000000 ≤ i.toInt)
    (hj : u2SInt29 (sintegerBits i) = .ok j) : SintegerRoundTrips i ↔ j = i := by
  have hwire := (careful_sinteger h).complete
  constructor
  · rintro ⟨bs, hencode, hdecode⟩
    -- both descriptions of what is written at offset 0 are of the same bytes
    have hboth := (hencode (bs.length + (amfCode .sinteger :: u29 (sintegerBits i)).length) (fun _ => 0) 0 _
      (Nat.le_add_right _ _) (by omega)).symm.trans (hwire _ _ _ _ (Nat.le_add_left _ _) (by omega))
    simp only [ok_pair_iff] at hboth
    have hbs : bs = amfCode .sinteger :: u29 (sintegerBits i) := by
      rw [← slice_blit (fun _ => 0) 0 bs, hboth.1, hboth.2, slice_blit]
    have hdec := hdecode []
    rw [hbs, amfDecodeSinteger_wire hj, ok_pair_iff] at hdec
    exact hdec.1
  · rintro rfl
    exact ⟨_, hwire, amfDecodeSinteger_wire hj⟩

/-- Signed integers of 29 bits survive both the code and the bare folding exactly from -2^24 on. -/
theorem sinteger_survives_iff (i : Int32) (h : i.toInt ≤ 0xFFFFFFF ∧ -0x10000000 ≤ i.toInt) :
    (SintegerRoundTrips i ↔ -0x1000000 ≤ i.toInt) ∧
    ((s2UInt29 i >>= u2SInt29) = .ok i ↔ -0x1000000 ≤ i.toInt) := by
  obtain ⟨j, hj, hiff⟩ := u2SInt29_sintegerBits h
  constructor
  · rw [sintegerRoundTrips_iff h hj, hiff]
  · rw [s2UInt29_ok h, ok_bind, hj, Except.ok.injEq, hiff]

theorem sinteger_survives_small :
    (SintegerRoundTrips (-5) ↔ -0x1000000 ≤ (-5 : Int32).toInt) ∧
    ((s2UInt29 (-5) >>= u2SInt29) = .ok (-5) ↔ -0x1000000 ≤ (-5 : Int32).toInt) :=
  sinteger_survives_iff (-5) (by decide)

/-- -2^24 - 1 comes back as -1. -/
theorem sinteger_lost :
    (-0x1000001 : Int32).toInt ≤ 0xFFFFFFF ∧ -0x10000000 ≤ (-0x1000001 : Int32).toInt ∧
    amfDecodeSinteger (wire (some (.sinteger (-0x1000001)))) = .ok (-1, some []) ∧
    ¬ SintegerRoundTrips (-0x1000001) := by
  have hrange : (-0x1000001 : Int32).toInt ≤ 0xFFFFFFF ∧ -0x10000000 ≤ (-0x1000001 : Int32).toInt := by decide
  have hj : u2SInt29 (sintegerBits (-0x1000001)) = .ok (-1) := by decide
  refine ⟨hrange.1, hrange.2, ?_, ?_⟩
  · have hdec := amfDecodeSinteger_wire hj []
    rwa [append_nil] at hdec
  · rw [sintegerRoundTrips_iff hrange hj]
    decide

/-! ## Skipping -/

/-- `amf_next_type`; a byte that is no type matches no case of a `switch`. -/
def amfNextType : List UInt8 → Option AmfType
  | [] => some .undefine
  | c :: _ => amfTypeOf c

/-- The length a decoder returns that leaves `rest`, 0 where it fails. -/
def decoded (data : List UInt8) : Option (List UInt8) → ℕ
  | none => 0
  | some rest => data.length - rest.length

/-- `amf_decode_string` without a slice to fill: the paths that set it go through a null pointer. -/
def amfDecodeStringNull (refs : Refs) (data : List UInt8) : Except Fault (ℕ × Refs) :=
  match data with
  | [] => .error .outOfBounds
  | type :: rest => do
    assert (type == amfCode .string)
    match amfDecodeU29 rest with
    | none => .error .outOfBounds
    | some (size, rest) =>
      if size % 2 = 0 then
        if refs.length ≤ size / 2 then .error .outOfBounds
        else return (decoded data (some rest), refs)
      else
        match dataPop (size / 2) rest with
        | none => return (0, refs)
        | some last =>
          if refs.length < stringRefSize then
            return (decoded data (some last), refs ++ [rest.take (size / 2)])
          else .error .outOfBounds

/-- The loop of `amf_skip` over the children, with `skip` for `amf_skip`. -/
def skipChildren (skip : Refs → List UInt8 → Except Fault (ℕ × Refs)) :
    ℕ → ℕ → Refs → List UInt8 → Except Fault (ℕ × Refs)
  | 0, offset, refs, _ => .ok (offset, refs)
  | n + 1, offset, refs, data => do
    let (c, refs) ← skip refs data
    if c = 0 then return (0, refs)
    else
      match dataPop c data with
      | none => return (0, refs)
      | some data => skipChildren skip n (offset + c) refs data

/-- `amf_skip`. The strings counted before are not forgotten, since only `amf_read` resets `cur_ref`.
The first argument bounds the depth of the recursion. -/
def amfSkip : ℕ → Refs → List UInt8 → Except Fault (ℕ × Refs)
  | 0, _, _ => .error .diverges
  | fuel + 1, refs, data =>
    match amfNextType data with
    | some .undefine => .ok (decoded data (amfDecodeTag data), refs)
    | some .null => .ok (decoded data (amfDecodeTag data), refs)
    | some .false => .ok (decoded data (amfDecodeTag data), refs)
    | some .true => .ok (decoded data (amfDecodeTag data), refs)
    | some .integer => .ok (decoded data ((amfDecodeInteger data).map Prod.snd), refs)
    | some .sinteger => .ok (decoded data ((amfDecodeInteger data).map Prod.snd), refs)
    | some .double => .ok (decoded data ((amfDecodeDouble data).map Prod.snd), refs)
    | some .string => amfDecodeStringNull refs data
    | some .byteArray => amfDecodeStringNull refs data
    | some .array => do
      let sz := match ← amfDecodeArray data with
        | none => 0
        | some (sz, _) => sz
      -- `DATA_POP(offset, offset)` pops nothing: the header is still ahead
      let offset := 0
      skipChildren (amfSkip fuel) sz offset refs data
    | _ => .ok (0, refs)

example : amfSkip 1 [] [amfCode .null] = .ok (1, []) := by
  rw [amfSkip]
  rfl

/-- Skipping returns, and returns the number of bytes that reading consumes. -/
def SkipAgrees (stale : Stale) (beyond : Mem) (refs : Refs) (data : List UInt8) : Prop :=
  ∃ fuel v n refs', amfRead stale beyond data = .ok (some (v, n)) ∧ amfSkip fuel refs data = .ok (n, refs')

/-- The root is no array and no byte array, and a string finds an entry of the string table. -/
def Skippable (refs : Refs) : Option AmfValue → Prop
  | some (.array _) => False
  | some (.byteArray _) => False
  | some (.string _) => refs.length < stringRefSize
  | _ => True

section Skip
variable {refs : Refs} (trailing : List UInt8)

theorem decoded_append (bs : List UInt8) : decoded (bs ++ trailing) (some trailing) = bs.length := by
  rw [decoded, length_append, Nat.add_sub_cancel]

theorem amfNextType_code (t : AmfType) (bs : List UInt8) : amfNextType (amfCode t :: bs) = some t :=
  amfTypeOf_code t

theorem amfDecodeStringNull_inline {header s : List UInt8} (h : IsU29 header (2 * s.length + 1)) :
    amfDecodeStringNull refs (amfCode .string :: (header ++ s) ++ trailing) =
      if refs.length < stringRefSize then .ok ((amfCode .string :: (header ++ s)).length, refs ++ [s])
      else .error .outOfBounds := by
  have hodd : ¬ (2 * s.length + 1) % 2 = 0 := by omega
  have hhalf : (2 * s.length + 1) / 2 = s.length := by omega
  have hlen := decoded_append trailing (amfCode .string :: (header ++ s))
  rw [cons_append, append_assoc] at hlen ⊢
  simp only [amfDecodeStringNull, beq_self_eq_true, assert_true, ok_bind, amfDecodeU29_complete h, hodd, if_false,
    hhalf, dataPop_append, hlen, take_left, pure_eq_ok]

theorem amfSkip_byteArray (bs : List UInt8) (fuel : ℕ) :
    ∀ r, amfSkip fuel refs (amfCode .byteArray :: bs) ≠ .ok r := by
  cases fuel with
  | zero => exact fun r h => nomatch h
  | succ fuel =>
    intro r h
    rw [amfSkip, amfNextType_code] at h
    nomatch h

theorem amfSkip_array {header bs : List UInt8} {n : ℕ} (h : IsU29 header (2 * (n + 1) + 1)) (fuel : ℕ) :
    amfSkip fuel refs (amfCode .array :: (header ++ 1 :: bs)) = .error .diverges := by
  induction fuel with
  | zero => rfl
  | succ fuel ih =>
    rw [amfSkip, amfNextType_code]
    simp only [amfDecodeArray_complete h, ok_bind, skipChildren, ih]
    rfl

theorem amfSkip_array_empty {header bs : List UInt8} (h : IsU29 header 1) (fuel : ℕ) {r : ℕ × Refs}
    (hr : amfSkip fuel refs (amfCode .array :: (header ++ 1 :: bs)) = .ok r) : r.1 = 0 := by
  cases fuel with
  | zero => nomatch hr
  | succ fuel =>
    rw [amfSkip, amfNextType_code] at hr
    have hdec : amfDecodeArray (amfCode .array :: (header ++ 1 :: bs)) = .ok (some (0, bs)) :=
      amfDecodeArray_complete h bs
    simp only [hdec, ok_bind, skipChildren, Except.ok.injEq] at hr
    rw [← hr]

variable {v : Option AmfValue}

theorem amfRead_leaf (hleaf : IsLeaf v) (henc : Encodable v) (stale : Stale) (beyond : Mem) :
    ∃ value, amfRead stale beyond (wire v ++ trailing) = .ok (some (value, (wire v).length)) := by
  obtain ⟨value, refs', hwire, hrefs⟩ : ∃ value refs', Leaf [] (wire v) value refs' ∧ refs'.length ≤ 1 := by
    match v, hleaf, henc with
    | some (.sinteger i), _, _ =>
      obtain ⟨j, hj⟩ := u2SInt29_ok (sintegerBits_le i)
      exact ⟨_, _, .sinteger (isU29_u29 (sintegerBits_le i)) hj, Nat.zero_le _⟩
    | none, h, he => exact ⟨_, _, leaf_wire h he trivial [], by simp [strings]⟩
    | some .undefine, h, he => exact ⟨_, _, leaf_wire h he trivial [], by simp [strings, stringsNode]⟩
    | some .null, h, he => exact ⟨_, _, leaf_wire h he trivial [], by simp [strings, stringsNode]⟩
    | some .false, h, he => exact ⟨_, _, leaf_wire h he trivial [], by simp [strings, stringsNode]⟩
    | some .true, h, he => exact ⟨_, _, leaf_wire h he trivial [], by simp [strings, stringsNode]⟩
    | some (.integer _), h, he => exact ⟨_, _, leaf_wire h he trivial [], by simp [strings, stringsNode]⟩
    | some (.double _), h, he => exact ⟨_, _, leaf_wire h he trivial [], by simp [strings, stringsNode]⟩
    | some (.string _), h, he => exact ⟨_, _, leaf_wire h he trivial [], by simp [strings, stringsNode]⟩
    | some (.byteArray _), h, he => exact ⟨_, _, leaf_wire h he trivial [], by simp [strings, stringsNode]⟩
  exact ⟨value, hwire.items.amfRead (le_trans hrefs (by decide)) trailing stale beyond⟩

theorem amfSkip_tag {t : AmfType} (ht : t ∈ [AmfType.undefine, .null, .false, .true]) :
    amfSkip 1 refs ([amfCode t] ++ trailing) = .ok (1, refs) := by
  have hpop : amfDecodeTag ([amfCode t] ++ trailing) = some trailing := dataPop_append [amfCode t] trailing
  have hlen : decoded ([amfCode t] ++ trailing) (amfDecodeTag ([amfCode t] ++ trailing)) = 1 := by
    rw [hpop, decoded_append, length_singleton]
  have hnext : amfNextType ([amfCode t] ++ trailing) = some t := amfNextType_code t trailing
  simp only [mem_cons, not_mem_nil, or_false] at ht
  rw [amfSkip, hnext]
  rcases ht with rfl | rfl | rfl | rfl
  all_goals simp only [hlen]

theorem amfSkip_number {t : AmfType} (ht : t = .integer ∨ t = .sinteger) {n : ℕ} (hn : n ≤ u29Max) :
    amfSkip 1 refs (amfCode t :: u29 n ++ trailing) = .ok ((amfCode t :: u29 n).length, refs) := by
  have hdec := amfDecodeInteger_complete (isU29_u29 hn) (amfCode t) trailing
  have hnext : amfNextType (amfCode t :: u29 n ++ trailing) = some t := amfNextType_code t _
  rw [amfSkip, hnext]
  rcases ht with rfl | rfl
  all_goals simp only [hdec, Option.map_some, decoded_append]

theorem amfSkip_double (d : UInt64) :
    amfSkip 1 refs (amfCode .double :: Binary64.toBytes d ++ trailing) =
      .ok ((amfCode .double :: Binary64.toBytes d).length, refs) := by
  have hnext : amfNextType (amfCode .double :: Binary64.toBytes d ++ trailing) = some .double := amfNextType_code _ _
  have hbytes : (amfCode .double :: Binary64.toBytes d).length = 9 := by
    rw [length_cons, Binary64.toBytes_length]
  have hlong : ¬ (amfCode .double :: Binary64.toBytes d ++ trailing).length < 9 := by
    rw [length_append]
    omega
  have hrest : (amfCode .double :: Binary64.toBytes d ++ trailing).drop 9 = trailing := drop_left' hbytes
  rw [amfSkip, hnext]
  simp only [amfDecodeDouble, hlong, if_false, Option.map_some, hrest, decoded_append]

theorem amfSkip_string {s : List UInt8} (h : 2 * s.length + 1 ≤ u29Max) :
    amfSkip 1 refs (wire (some (.string s)) ++ trailing) =
      if refs.length < stringRefSize then .ok ((wire (some (.string s))).length, refs ++ [s])
      else .error .outOfBounds := by
  have hnext : amfNextType (wire (some (.string s)) ++ trailing) = some .string := amfNextType_code _ _
  rw [amfSkip, hnext]
  exact amfDecodeStringNull_inline trailing (isU29_u29 h)

theorem amfSkip_leaf (hleaf : IsLeaf v) (henc : Encodable v) (hskip : Skippable refs v) :
    ∃ refs', amfSkip 1 refs (wire v ++ trailing) = .ok ((wire v).length, refs') := by
  match v, hleaf, henc, hskip with
  | none, _, _, _ => exact ⟨refs, amfSkip_tag trailing (by decide)⟩
  | some .undefine, _, _, _ => exact ⟨refs, amfSkip_tag trailing (by decide)⟩
  | some .null, _, _, _ => exact ⟨refs, amfSkip_tag trailing (by decide)⟩
  | some .false, _, _, _ => exact ⟨refs, amfSkip_tag trailing (by decide)⟩
  | some .true, _, _, _ => exact ⟨refs, amfSkip_tag trailing (by decide)⟩
  | some (.integer n), _, _, _ =>
    simp only [wire, wireNode]
    split
    · exact ⟨refs, amfSkip_double trailing _⟩
    · next hn => exact ⟨refs, amfSkip_number trailing (.inl rfl) (Nat.not_lt.mp hn)⟩
  | some (.sinteger i), _, _, _ => exact ⟨refs, amfSkip_number trailing (.inr rfl) (sintegerBits_le i)⟩
  | some (.double d), _, _, _ => exact ⟨refs, amfSkip_double trailing d⟩
  | some (.string s), _, h, hroom => exact ⟨refs ++ [s], (amfSkip_string trailing h).trans (if_pos hroom)⟩

theorem amfSkip_fails (henc : Encodable v) (hskip : ¬ Skippable refs v) (fuel : ℕ)
    {r : ℕ × Refs} (hr : amfSkip fuel refs (wire v ++ trailing) = .ok r) : v = some (.array []) ∧ r.1 = 0 := by
  cases v with
  | none => exact absurd trivial hskip
  | some value =>
    cases value with
    | array child =>
      cases child with
      | nil =>
        refine ⟨rfl, @amfSkip_array_empty refs _ trailing (isU29_u29 (n := 1) (by decide)) fuel _ ?_⟩
        simpa only [wire, wireNode, wireChildren, length_nil, append_nil, cons_append, append_assoc,
          nil_append] using hr
      | cons c child =>
        have hdiv := @amfSkip_array refs _ (wireChildren (c :: child) ++ trailing) _
          (isU29_u29 (n := 2 * (child.length + 1) + 1) henc.1) fuel
        simp only [wire, wireNode, length_cons, cons_append, append_assoc, nil_append] at hr
        rw [hdiv] at hr
        cases hr
    | byteArray s => exact absurd hr (amfSkip_byteArray _ fuel r)
    | string s =>
      have hfull : ¬ refs.length < stringRefSize := hskip
      cases fuel with
      | zero => cases hr
      | succ fuel =>
        have hone : amfSkip (fuel + 1) refs (wire (some (.string s)) ++ trailing) =
            amfSkip 1 refs (wire (some (.string s)) ++ trailing) := by
          have hnext : amfNextType (wire (some (.string s)) ++ trailing) = some .string := amfNextType_code _ _
          rw [amfSkip, amfSkip, hnext]
        rw [hone, amfSkip_string trailing henc, if_neg hfull] at hr
        cases hr
    | _ => exact absurd trivial hskip

theorem skippable_leaf (h : Skippable refs v) : IsLeaf v := by
  match v, h with
  | none, _ => exact trivial
  | some .undefine, _ => exact trivial
  | some .null, _ => exact trivial
  | some .false, _ => exact trivial
  | some .true, _ => exact trivial
  | some (.integer _), _ => exact trivial
  | some (.sinteger _), _ => exact trivial
  | some (.double _), _ => exact trivial
  | some (.string _), _ => exact trivial

theorem skipAgrees_iff (henc : Encodable v) (stale : Stale) (beyond : Mem) (refs : Refs) :
    SkipAgrees stale beyond refs (wire v ++ trailing) ↔ Skippable refs v := by
  constructor
  · rintro ⟨fuel, value, n, refs', hread, hskip⟩
    by_contra hnot
    obtain ⟨rfl, hzero⟩ := amfSkip_fails trailing henc hnot fuel hskip
    have hempty := (items_wire (some (.array [])) [] henc trivial).amfRead (Nat.zero_le _) trailing stale beyond
    rw [hread] at hempty
    simp only [Except.ok.injEq, Option.some.injEq, Prod.mk.injEq] at hempty
    simp only at hzero
    rw [hzero] at hempty
    exact absurd hempty.2 (by decide)
  · intro h
    have hleaf := skippable_leaf h
    obtain ⟨value, hread⟩ := amfRead_leaf trailing hleaf henc stale beyond
    obtain ⟨refs', hskip⟩ := amfSkip_leaf trailing hleaf henc h
    exact ⟨1, value, _, refs', hread, hskip⟩

end Skip

/-- What `amf_encode` wrote is skipped as it is read exactly where the root is no array and no byte
array, and for a string the table still has an entry. -/
theorem amfSkip_amfEncode (v : Option AmfValue) (henc : Encodable v) :
    ∃ need, amfGetEncodeLength v = .ok need ∧ ∀ (dlen : ℕ) (m : Mem), need ≤ dlen →
      ∃ r m', amfEncode dlen m 0 dlen v = .ok (r, m') ∧
        ∀ (stale : Stale) (beyond : Mem) (refs : Refs) (trailing : List UInt8),
          SkipAgrees stale beyond refs (slice m' 0 r ++ trailing) ↔ Skippable refs v := by
  refine ⟨_, amfGetEncodeLength_ok v henc, fun dlen m hdlen => ?_⟩
  refine ⟨_, _, amfEncode_complete dlen dlen v m 0 henc hdlen (by omega), fun stale beyond refs trailing => ?_⟩
  rw [slice_blit]
  exact skipAgrees_iff trailing henc stale beyond refs

theorem amfSkip_amfEncode_string :
    ∃ need, amfGetEncodeLength (some (.string [65, 66])) = .ok need ∧ ∀ (dlen : ℕ) (m : Mem), need ≤ dlen →
      ∃ r m', amfEncode dlen m 0 dlen (some (.string [65, 66])) = .ok (r, m') ∧
        ∀ (stale : Stale) (beyond : Mem) (refs : Refs) (trailing : List UInt8),
          SkipAgrees stale beyond refs (slice m' 0 r ++ trailing) ↔ Skippable refs (some (.string [65, 66])) :=
  amfSkip_amfEncode _ (show 2 * [65, 66].length + 1 ≤ u29Max by decide)

/-- An array of one null: reading consumes its four bytes, skipping never comes back. -/
theorem amfSkip_never_returns :
    wire (some (.array [some .null])) = [0x09, 0x03, 0x01, 0x01] ∧
    (∀ stale beyond, amfRead stale beyond [0x09, 0x03, 0x01, 0x01] = .ok (some (.array [some .null], 4))) ∧
    (∀ fuel refs, amfSkip fuel refs [0x09, 0x03, 0x01, 0x01] = .error .diverges) ∧
    ∀ stale beyond refs, ¬ SkipAgrees stale beyond refs [0x09, 0x03, 0x01, 0x01] := by
  have hheader : IsU29 [0x03] (2 * (0 + 1) + 1) := isU29_u29 (n := 3) (by decide)
  have hdiv : ∀ fuel refs, amfSkip fuel refs [0x09, 0x03, 0x01, 0x01] = .error .diverges := fun fuel refs =>
    amfSkip_array hheader fuel
  refine ⟨rfl, fun _ _ => rfl, hdiv, ?_⟩
  rintro stale beyond refs ⟨fuel, v, n, refs', -, hskip⟩
  rw [hdiv] at hskip
  nomatch hskip

end CServer.Framework
