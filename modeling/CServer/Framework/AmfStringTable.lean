import CServer.Framework.AmfWire

/-! # `framework/amf.c`: the string table of the decoder

The reader of `Framework.AmfRead` once more, over the table itself: `string_ref` is a static array that
keeps what earlier messages have left in it, `cur_ref` the number of entries in use. Every access to an
entry is recorded in `accesses`, the one that leaves the array included; nothing runs after that one.
-/
namespace CServer.Framework
open CServer.Lib List Function

/-! ## The table -/

inductive StringAccess
  | store (k : ℕ) (s : List UInt8)
  | load (k : ℕ) (s : List UInt8)

def StringAccess.index : StringAccess → ℕ
  | .store k _ => k
  | .load k _ => k

/-- `string_ref` and `cur_ref`; an entry is the bytes its `ptr` and `len` designate. -/
structure StringRef where
  entry : ℕ → List UInt8
  curRef : ℕ
  accesses : List StringAccess

namespace StringRef

def load (t : StringRef) (k : ℕ) : StringRef × Except Fault (List UInt8) :=
  ({ t with accesses := t.accesses ++ [.load k (t.entry k)] },
    if k < stringRefSize then .ok (t.entry k) else .error .outOfBounds)

/-- The two assignments to `string_ref[cur_ref]`, and `cur_ref ++`. -/
def store (t : StringRef) (s : List UInt8) : StringRef × Except Fault Unit :=
  let accesses := t.accesses ++ [.store t.curRef s]
  if t.curRef < stringRefSize then (⟨update t.entry t.curRef s, t.curRef + 1, accesses⟩, .ok ())
  else ({ t with accesses := accesses }, .error .outOfBounds)

end StringRef

abbrev Reading (α : Type) := StringRef × Except Fault (Option (α × List UInt8))

/-! ## The reader -/

def amfDecodeStringIn (t : StringRef) (data : List UInt8) : Reading (List UInt8) :=
  match data with
  | [] => (t, .ok none)
  | type :: data =>
    if type ≠ amfCode .string then (t, .error .assertion)
    else
      match amfDecodeU29 data with
      | none => (t, .ok none)
      | some (size, data) =>
        if size % 2 = 0 then
          if t.curRef ≤ size / 2 then (t, .ok none)
          else
            match t.load (size / 2) with
            | (t, .error e) => (t, .error e)
            | (t, .ok s) => (t, .ok (some (s, data)))
        else
          match dataPop (size / 2) data with
          | none => (t, .ok none)
          | some rest =>
            match t.store (data.take (size / 2)) with
            | (t, .error e) => (t, .error e)
            | (t, .ok ()) => (t, .ok (some (data.take (size / 2), rest)))

def readStringIn (t : StringRef) (data : List UInt8) : Reading AmfValue :=
  match amfDecodeStringIn t data with
  | (t, .error e) => (t, .error e)
  | (t, .ok none) => (t, .ok (some (.string [], data)))
  | (t, .ok (some (s, rest))) => (t, .ok (some (.string s, rest)))

def besides (t : StringRef) (x : Except Fault (Read AmfValue)) : Reading AmfValue :=
  (t, x.map fun r => r.map fun (v, rest, _) => (v, rest))

def readChildrenIn (read : StringRef → List UInt8 → Reading AmfValue) :
    ℕ → StringRef → List UInt8 → Reading (List AmfValue)
  | 0, t, data => (t, .ok (some ([], data)))
  | n + 1, t, data =>
    match read t data with
    | (t, .error e) => (t, .error e)
    | (t, .ok none) => (t, .ok none)
    | (t, .ok (some (c, data))) =>
      match readChildrenIn read n t data with
      | (t, .error e) => (t, .error e)
      | (t, .ok none) => (t, .ok none)
      | (t, .ok (some (cs, data))) => (t, .ok (some (c :: cs, data)))

def readArrayIn (read : StringRef → List UInt8 → Reading AmfValue) (t : StringRef) (data : List UInt8) :
    Reading AmfValue :=
  match amfDecodeArray data with
  | .error e => (t, .error e)
  | .ok none => (t, .ok none)
  | .ok (some (size, data)) =>
    match readChildrenIn read size t data with
    | (t, .error e) => (t, .error e)
    | (t, .ok none) => (t, .ok none)
    | (t, .ok (some (child, data))) => (t, .ok (some (.array (child.map some), data)))

def readAmfIn (stale : Stale) (beyond : Mem) : ℕ → StringRef → List UInt8 → Reading AmfValue
  | 0, t, _ => (t, .error .diverges)
  | fuel + 1, t, data =>
    match amfTypeOf (data.headD (beyond 0)) with
    | some .undefine => besides t (readTag .undefine [] data)
    | some .null => besides t (readTag .null [] data)
    | some .false => besides t (readTag .false [] data)
    | some .true => besides t (readTag .true [] data)
    | some .array => readArrayIn (readAmfIn stale beyond fuel) t data
    | some .integer => besides t (readInteger stale [] data)
    | some .sinteger => besides t (readSinteger [] data)
    | some .string => readStringIn t data
    | some .double => besides t (readDouble stale [] data)
    | some .byteArray => besides t (readByteArray [] data)
    | _ => (t, .ok none)

variable (stale : Stale)

/-- `amf_read`, with `entry` for what the array holds before: `cur_ref = 0`. -/
def amfReadIn (beyond : Mem) (entry : ℕ → List UInt8) (data : List UInt8) : Reading AmfValue :=
  readAmfIn stale beyond (data.length + 1) ⟨entry, 0, []⟩ data

/-! ## What the table holds -/

/-- Every access is inside the array, and what is loaded has been stored before. -/
structure TableSafe (accesses : List StringAccess) : Prop where
  inside : ∀ a ∈ accesses, a.index < stringRefSize
  resolved : ∀ before k s after, accesses = before ++ .load k s :: after → .store k s ∈ before

/-- The table holds the strings `refs`, and the accesses so far were safe and stored them. -/
structure StringRef.Holds (t : StringRef) (refs : Refs) : Prop where
  count : t.curRef = refs.length
  entries : ∀ k s, refs[k]? = some s → t.entry k = s ∧ .store k s ∈ t.accesses
  size : refs.length ≤ stringRefSize
  safe : TableSafe t.accesses

theorem TableSafe.snoc {accesses : List StringAccess} (h : TableSafe accesses) {a : StringAccess}
    (ha : a.index < stringRefSize) (hload : ∀ k s, a = .load k s → .store k s ∈ accesses) :
    TableSafe (accesses ++ [a]) where
  inside := by
    intro b hb
    cases mem_append.mp hb with
    | inl hb => exact h.inside b hb
    | inr hb => exact mem_singleton.mp hb ▸ ha
  resolved := by
    intro before k s after hsplit
    cases after using List.reverseRecOn with
    | nil =>
      obtain ⟨rfl, he⟩ := append_inj' hsplit rfl
      exact hload k s (singleton_inj.mp he)
    | append_singleton after last _ =>
      rw [← cons_append, ← append_assoc] at hsplit
      exact h.resolved before k s after (append_inj' hsplit rfl).1

theorem tableSafe_nil : TableSafe [] where
  inside := fun _ ha => absurd ha not_mem_nil
  resolved := fun before k s after h => by
    have := congrArg List.length h
    simp at this

variable {t : StringRef} {refs : Refs}

theorem StringRef.Holds.load (h : t.Holds refs) {k : ℕ} {s : List UInt8} (hs : refs[k]? = some s) :
    ∃ t', t.load k = (t', .ok s) ∧ t'.Holds refs := by
  obtain ⟨he, hstored⟩ := h.entries k s hs
  have hk : k < stringRefSize := Nat.lt_of_lt_of_le (List.getElem?_eq_some_iff.mp hs).1 h.size
  have hsafe : TableSafe (t.accesses ++ [.load k s]) := by
    refine h.safe.snoc hk ?_
    rintro j s' ⟨⟩
    exact hstored
  refine ⟨{ t with accesses := t.accesses ++ [.load k s] }, ?_, h.count, ?_, h.size, hsafe⟩
  · rw [StringRef.load, if_pos hk, he]
  · intro j s' hj
    exact ⟨(h.entries j s' hj).1, mem_append_left _ (h.entries j s' hj).2⟩

theorem StringRef.Holds.store (h : t.Holds refs) (hroom : refs.length < stringRefSize) (s : List UInt8) :
    ∃ t', t.store s = (t', .ok ()) ∧ t'.Holds (refs ++ [s]) := by
  have hcount : t.curRef < stringRefSize := h.count ▸ hroom
  have hsafe : TableSafe (t.accesses ++ [.store t.curRef s]) := h.safe.snoc hcount fun _ _ he => nomatch he
  refine ⟨⟨update t.entry t.curRef s, t.curRef + 1, t.accesses ++ [.store t.curRef s]⟩, ?_, ?_, ?_, ?_, hsafe⟩
  · rw [StringRef.store]
    exact if_pos hcount
  · rw [length_append, length_singleton, h.count]
  · intro k s' hk
    by_cases hlast : k = refs.length
    · subst hlast
      rw [List.getElem?_concat_length, Option.some_inj] at hk
      subst hk
      simp only [h.count, update_self]
      exact ⟨trivial, mem_append_right _ (mem_singleton.mpr rfl)⟩
    · have hold : refs[k]? = some s' := by
        have hlt := (List.getElem?_eq_some_iff.mp hk).1
        rw [length_append, length_singleton] at hlt
        rwa [List.getElem?_append_left (by omega)] at hk
      simp only [h.count, update_of_ne hlast]
      exact ⟨(h.entries k s' hold).1, mem_append_left _ (h.entries k s' hold).2⟩
  · rw [length_append, length_singleton]
    exact hroom

theorem StringRef.Holds.store_full (h : t.Holds refs) (hfull : ¬ refs.length < stringRefSize) (s : List UInt8) :
    ∃ t', t.store s = (t', .error .outOfBounds) ∧ ¬ TableSafe t'.accesses := by
  have hcount : ¬ t.curRef < stringRefSize := h.count ▸ hfull
  refine ⟨{ t with accesses := t.accesses ++ [.store t.curRef s] }, ?_, fun hsafe => ?_⟩
  · rw [StringRef.store]
    exact if_neg hcount
  exact hcount (hsafe.inside _ (mem_append_right _ (mem_singleton.mpr rfl)))

/-! ## The two readers -/

/-- The reader over the table does what the reader over a list of strings does, and the table then holds that list. -/
inductive Follows {α : Type} : Reading α → Except Fault (Read α) → Prop
  | value {t : StringRef} {refs : Refs} (h : t.Holds refs) (a : α) (rest : List UInt8) :
      Follows (t, .ok (some (a, rest))) (.ok (some (a, rest, refs)))
  | null {t : StringRef} (h : TableSafe t.accesses) : Follows (t, .ok none) (.ok none)
  | overrun {t : StringRef} (h : ¬ TableSafe t.accesses) : Follows (t, .error .outOfBounds) (.error .outOfBounds)
  | fault {t : StringRef} (h : TableSafe t.accesses) {e : Fault} (he : e ≠ .outOfBounds) :
      Follows (t, .error e) (.error e)

theorem Follows.safe_iff {α : Type} {x : Reading α} {y : Except Fault (Read α)} (h : Follows x y) :
    TableSafe x.1.accesses ↔ y ≠ .error .outOfBounds := by
  cases h with
  | value h => exact ⟨(fun _ he => nomatch he), fun _ => h.safe⟩
  | null h => exact ⟨(fun _ he => nomatch he), fun _ => h⟩
  | overrun h => exact ⟨fun hs => absurd hs h, fun hne => absurd rfl hne⟩
  | fault h he => exact ⟨fun _ hs => he (Except.error.inj hs), fun _ => h⟩

def Indifferent (read : Refs → Except Fault (Read AmfValue)) : Prop :=
  ∀ refs, read refs = (read []).map fun r => r.map fun (v, rest, _) => (v, rest, refs)

theorem readTag_indifferent (v : AmfValue) (data : List UInt8) : Indifferent fun refs => readTag v refs data := by
  intro refs
  unfold readTag
  cases amfDecodeTag data <;> rfl

variable (data : List UInt8)

theorem readInteger_indifferent :
    Indifferent fun refs => readInteger stale refs data := by
  intro refs
  unfold readInteger
  cases amfDecodeInteger data <;> rfl

theorem readSinteger_indifferent : Indifferent fun refs => readSinteger refs data := by
  intro refs
  unfold readSinteger
  cases amfDecodeInteger data with
  | none => cases u2SInt29 0 <;> rfl
  | some r =>
    obtain ⟨n, rest⟩ := r
    simp only
    cases u2SInt29 n <;> rfl

theorem readDouble_indifferent :
    Indifferent fun refs => readDouble stale refs data := by
  intro refs
  unfold readDouble
  cases amfDecodeDouble data <;> rfl

theorem readByteArray_indifferent : Indifferent fun refs => readByteArray refs data := by
  intro refs
  unfold readByteArray
  cases amfDecodeByteArray data with
  | error e => rfl
  | ok r => cases r <;> rfl

theorem besides_follows {read : Refs → Except Fault (Read AmfValue)} (hread : Indifferent read) (h : t.Holds refs)
    (hok : ∃ r, read [] = .ok r) : Follows (besides t (read [])) (read refs) := by
  obtain ⟨r, hr⟩ := hok
  rw [hread refs, hr]
  cases r with
  | none => exact .null h.safe
  | some r => exact .value h r.1 r.2.1

theorem readStringIn_follows (h : t.Holds refs) {data : List UInt8}
    (hdata : ∀ c data', data = c :: data' → c = amfCode .string) : Follows (readStringIn t data) (readString refs data) := by
  cases data with
  | nil => exact .value h _ _
  | cons c data =>
    obtain rfl := hdata c data rfl
    simp only [readStringIn, readString, amfDecodeStringIn, amfDecodeString, ne_eq, not_true_eq_false, if_false,
      beq_self_eq_true, assert_true, ok_bind]
    cases amfDecodeU29 data with
    | none => exact .value h _ _
    | some r =>
      obtain ⟨size, data'⟩ := r
      simp only
      by_cases heven : size % 2 = 0
      · -- a reference
        rw [if_pos heven, if_pos heven]
        cases hs : refs[size / 2]? with
        | none =>
          have hout : t.curRef ≤ size / 2 := h.count ▸ List.getElem?_eq_none_iff.mp hs
          rw [if_pos hout]
          exact .value h _ _
        | some s =>
          have hin : ¬ t.curRef ≤ size / 2 := by
            rw [h.count, Nat.not_le]
            exact (List.getElem?_eq_some_iff.mp hs).1
          obtain ⟨t', hload, h'⟩ := h.load hs
          rw [if_neg hin, hload]
          exact .value h' _ _
      · -- the bytes of a string
        rw [if_neg heven, if_neg heven]
        cases dataPop (size / 2) data' with
        | none => exact .value h _ _
        | some rest =>
          simp only
          by_cases hroom : refs.length < stringRefSize
          · obtain ⟨t', hstore, h'⟩ := h.store hroom (data'.take (size / 2))
            rw [hstore, if_pos hroom]
            exact .value h' _ _
          · obtain ⟨t', hstore, h'⟩ := h.store_full hroom (data'.take (size / 2))
            rw [hstore, if_neg hroom]
            exact .overrun h'

section Reader

variable (stale : Stale) (beyond : Mem)

theorem readChildrenIn_follows {fuel : ℕ}
    (hread : ∀ (t : StringRef) (refs : Refs) (data : List UInt8), t.Holds refs →
      Follows (readAmfIn stale beyond fuel t data) (readAmf stale beyond fuel refs data)) (n : ℕ) :
    ∀ (t : StringRef) (refs : Refs) (data : List UInt8), t.Holds refs →
      Follows (readChildrenIn (readAmfIn stale beyond fuel) n t data)
        (readChildren (readAmf stale beyond fuel) n refs data) := by
  induction n with
  | zero => exact fun t refs data h => .value h _ _
  | succ n ih =>
    intro t refs data h
    have hfirst := hread t refs data h
    rw [readChildrenIn, readChildren]
    generalize readAmfIn stale beyond fuel t data = x at hfirst ⊢
    generalize readAmf stale beyond fuel refs data = y at hfirst ⊢
    cases hfirst with
    | null h => exact .null h
    | overrun h => exact .overrun h
    | fault h he => exact .fault h he
    | @value t' refs' h' a rest =>
      have hrest := ih t' refs' rest h'
      simp only [ok_bind]
      generalize readChildrenIn (readAmfIn stale beyond fuel) n t' rest = x at hrest ⊢
      generalize readChildren (readAmf stale beyond fuel) n refs' rest = y at hrest ⊢
      cases hrest with
      | null h => exact .null h
      | overrun h => exact .overrun h
      | fault h he => exact .fault h he
      | value h => exact .value h _ _

theorem readArrayIn_follows {fuel : ℕ}
    (hread : ∀ (t : StringRef) (refs : Refs) (data : List UInt8), t.Holds refs →
      Follows (readAmfIn stale beyond fuel t data) (readAmf stale beyond fuel refs data))
    (h : t.Holds refs) {data : List UInt8} (hdata : ∀ c data', data = c :: data' → c = amfCode .array) :
    Follows (readArrayIn (readAmfIn stale beyond fuel) t data) (readArray (readAmf stale beyond fuel) refs data) := by
  unfold readArrayIn readArray
  cases data with
  | nil => exact .null h.safe
  | cons c data =>
    rcases amfDecodeArray_cases data (hdata c data rfl) with hnone | ⟨header, n, rest, -, -, hsome⟩
    · rw [hnone]
      exact .null h.safe
    · have hchildren := readChildrenIn_follows stale beyond hread n t refs rest h
      rw [hsome]
      simp only [ok_bind]
      generalize readChildrenIn (readAmfIn stale beyond fuel) n t rest = x at hchildren ⊢
      generalize readChildren (readAmf stale beyond fuel) n refs rest = y at hchildren ⊢
      cases hchildren with
      | null h => exact .null h
      | overrun h => exact .overrun h
      | fault h he => exact .fault h he
      | value h => exact .value h _ _

theorem leaf_ok {data : List UInt8} {ty : AmfType} (ht : amfTypeOf (data.headD (beyond 0)) = some ty)
    (hleaf : leafType ty = true) : ∃ r, readAmf stale beyond 1 [] data = .ok r := by
  have hrefs : ([] : List (List UInt8)).length ≤ stringRefSize := Nat.zero_le _
  obtain ⟨res, hres, hout⟩ := leaf_outcome stale beyond hrefs ht hleaf
  rw [hres 0]
  rcases hout with ⟨b, v, rest, refs', -, -, -, rfl⟩ | ⟨-, hfull, -⟩ | ⟨v, rfl⟩
  · exact ⟨_, rfl⟩
  · exact absurd hfull (by decide)
  · exact ⟨_, rfl⟩

theorem readAmfIn_follows (fuel : ℕ) : ∀ (t : StringRef) (refs : Refs) (data : List UInt8), t.Holds refs →
    Follows (readAmfIn stale beyond fuel t data) (readAmf stale beyond fuel refs data) := by
  induction fuel with
  | zero => exact fun t refs data h => .fault h.safe (by simp)
  | succ fuel ih =>
    intro t refs data h
    cases ht : amfTypeOf (data.headD (beyond 0)) with
    | none =>
      rw [readAmfIn, readAmf, ht]
      exact .null h.safe
    | some ty =>
      have hdata : ∀ c data', data = c :: data' → c = amfCode ty := by
        rintro c data' rfl
        exact amfTypeOf_eq_some ht
      have hok := leaf_ok stale beyond ht
      rw [readAmf, ht] at hok
      rw [readAmfIn, readAmf, ht]
      cases ty with
      | undefine => exact besides_follows (readTag_indifferent _ data) h (hok rfl)
      | null => exact besides_follows (readTag_indifferent _ data) h (hok rfl)
      | false => exact besides_follows (readTag_indifferent _ data) h (hok rfl)
      | true => exact besides_follows (readTag_indifferent _ data) h (hok rfl)
      | integer => exact besides_follows (readInteger_indifferent stale data) h (hok rfl)
      | sinteger => exact besides_follows (readSinteger_indifferent data) h (hok rfl)
      | double => exact besides_follows (readDouble_indifferent stale data) h (hok rfl)
      | byteArray => exact besides_follows (readByteArray_indifferent data) h (hok rfl)
      | string => exact readStringIn_follows h hdata
      | array => exact readArrayIn_follows stale beyond ih h hdata
      | xmlDoc => exact .null h.safe
      | date => exact .null h.safe
      | object => exact .null h.safe
      | xml => exact .null h.safe

end Reader

/-! ## Messages -/

theorem amfRead_outOfBounds_iff (beyond : Mem) (d : List UInt8) :
    readAmf stale beyond (d.length + 1) [] d = .error .outOfBounds ↔ Overfull d := by
  constructor
  · intro he
    have h := readAmf_outcome stale beyond (d.length + 1) [] d (Nat.lt_succ_self _) (Nat.zero_le _)
    rw [he] at h
    cases h with
    | overrun h hfull => exact ⟨_, _, h, hfull⟩
  · rintro ⟨refs, rest, hdue, hfull⟩
    have hr := hdue.reaches stale beyond (hfull.read stale beyond) hfull.1.le (by rintro r ⟨⟩)
      (Nat.lt_succ_self d.length)
    rw [readChildren] at hr
    generalize readAmf stale beyond (d.length + 1) [] d = y at hr
    cases y with
    | error e =>
      cases hr with
      | fault he => exact he.symm
    | ok o =>
      cases o with
      | none =>
        cases hr
        contradiction
      | some r =>
        cases hr
        contradiction

/-- Every access to the string table stays inside it and finds a string of the message, unless a string comes when the
message already has as many strings as the table has entries. -/
theorem stringTable_safe_iff (beyond : Mem) (entry : ℕ → List UInt8) (d : List UInt8) :
    TableSafe (amfReadIn stale beyond entry d).1.accesses ↔ ¬ Overfull d := by
  have hempty : StringRef.Holds ⟨entry, 0, []⟩ [] :=
    ⟨rfl, fun k s hk => by simp at hk, Nat.zero_le _, tableSafe_nil⟩
  have h := readAmfIn_follows stale beyond (d.length + 1) ⟨entry, 0, []⟩ [] d hempty
  rw [amfReadIn, h.safe_iff, ne_eq, amfRead_outOfBounds_iff]

def emptyStrings (n : ℕ) : List UInt8 :=
  amfCode .array :: (u29 (2 * n + 1) ++ 1 :: (List.replicate n [amfCode .string, 1]).flatten)

theorem due_emptyStrings (n k : ℕ) (refs : Refs) (rest : List UInt8) :
    Due refs (n + k + 1) ((List.replicate n [amfCode .string, 1]).flatten ++ rest) (refs ++ List.replicate n []) rest := by
  induction n generalizing refs with
  | zero =>
    rw [replicate_zero, flatten_nil, nil_append, replicate_zero, append_nil]
    exact .here refs (0 + k) rest
  | succ n ih =>
    have hone : Items refs [amfCode .string, 1] [.string []] (refs ++ [[]]) :=
      Leaf.items (@Leaf.string _ [1] [] (IsU29.one (by decide)))
    have hrest := ih (refs ++ [[]])
    rw [append_assoc, singleton_append, ← replicate_succ] at hrest
    rw [replicate_succ, flatten_cons, append_assoc, Nat.add_right_comm n 1 k]
    exact .after hone hrest

/-- The string after 1024 others is stored behind the table. -/
theorem stringTable_overrun :
    ¬ TableSafe (amfReadIn ⟨0, 0⟩ (fun _ => 0) (fun _ => []) (emptyStrings 1025)).1.accesses := by
  rw [stringTable_safe_iff, not_not]
  have hdue := due_emptyStrings 1024 0 [] [amfCode .string, 1]
  rw [nil_append] at hdue
  refine ⟨List.replicate 1024 [], [amfCode .string, 1], ?_, length_replicate, [1], [], [], rfl,
    IsU29.one (by decide)⟩
  rw [emptyStrings, replicate_succ' (n := 1024), flatten_append, flatten_singleton]
  exact .inside (isU29_u29 (by decide)) hdue

end CServer.Framework
