import CServer.Framework.AmfRead

/-! # `framework/amf.c`: complete messages and the reader

`Items refs bs vs refs'` is the wire format: `bs` is the complete encodings of the values `vs`, one
after another, and takes the string table from `refs` to `refs'`. `Due refs n data refs' rest` says
that a reader asked for `n` items from `data` comes, after complete items, to want one at `rest`.
Every call of the reader ends in one of four ways: it has read complete items, it returns a null
pointer, it overruns the string table, or it stands where a leaf does not decode; a leaf reader
then consumes nothing and still returns a value, so the reader stands there until it returns.
-/
namespace CServer.Framework
open CServer.Lib List Option

/-! ## The format -/

inductive Leaf (refs : Refs) : List UInt8 → AmfValue → Refs → Prop
  | undefine : Leaf refs [amfCode .undefine] .undefine refs
  | null : Leaf refs [amfCode .null] .null refs
  | false : Leaf refs [amfCode .false] .false refs
  | true : Leaf refs [amfCode .true] .true refs
  | integer {bs : List UInt8} {n : ℕ} (h : IsU29 bs n) :
      Leaf refs (amfCode .integer :: bs) (.integer (UInt32.ofNat n)) refs
  | sinteger {bs : List UInt8} {n : ℕ} {i : Int32} (h : IsU29 bs n) (hi : u2SInt29 n = .ok i) :
      Leaf refs (amfCode .sinteger :: bs) (.sinteger i) refs
  | double {bs : List UInt8} (h : bs.length = 8) :
      Leaf refs (amfCode .double :: bs) (.double (Binary64.ofBytes bs)) refs
  | string {header s : List UInt8} (h : IsU29 header (2 * s.length + 1)) :
      Leaf refs (amfCode .string :: (header ++ s)) (.string s) (refs ++ [s])
  | stringRef {header s : List UInt8} {i : ℕ} (h : IsU29 header (2 * i)) (hi : refs[i]? = some s) :
      Leaf refs (amfCode .string :: header) (.string s) refs
  | byteArray {header s : List UInt8} {n : ℕ} (h : IsU29 header n) (hs : n / 2 = s.length) :
      Leaf refs (amfCode .byteArray :: (header ++ s)) (.byteArray s) refs

inductive Items : Refs → List UInt8 → List AmfValue → Refs → Prop
  | nil (refs : Refs) : Items refs [] [] refs
  | leaf {refs refs₁ refs₂ : Refs} {b bs : List UInt8} {v : AmfValue} {vs : List AmfValue}
      (hv : Leaf refs b v refs₁) (hvs : Items refs₁ bs vs refs₂) : Items refs (b ++ bs) (v :: vs) refs₂
  | array {refs refs₁ refs₂ : Refs} {header b bs : List UInt8} {child vs : List AmfValue}
      (h : IsU29 header (2 * child.length + 1)) (hc : Items refs b child refs₁)
      (hvs : Items refs₁ bs vs refs₂) :
      Items refs (amfCode .array :: (header ++ 1 :: b) ++ bs) (.array (child.map some) :: vs) refs₂

def Complete (d : List UInt8) (v : AmfValue) : Prop := ∃ refs, Items [] d [v] refs

inductive Due : Refs → ℕ → List UInt8 → Refs → List UInt8 → Prop
  | here (refs : Refs) (n : ℕ) (data : List UInt8) : Due refs (n + 1) data refs data
  | after {refs refs₁ refs' : Refs} {n : ℕ} {b data rest : List UInt8} {v : AmfValue}
      (hv : Items refs b [v] refs₁) (h : Due refs₁ n data refs' rest) :
      Due refs (n + 1) (b ++ data) refs' rest
  | inside {refs refs' : Refs} {n k : ℕ} {header data rest : List UInt8} (hk : IsU29 header (2 * k + 1))
      (h : Due refs k data refs' rest) :
      Due refs (n + 1) (amfCode .array :: (header ++ 1 :: data)) refs' rest

/-- The message ends where an item is still due: it is empty, or an array announces more children
than follow. -/
def Cut (d : List UInt8) : Prop := ∃ refs, Due [] 1 d refs [] ∧ refs.length ≤ stringRefSize

def FullAt (refs : Refs) (data : List UInt8) : Prop :=
  refs.length = stringRefSize ∧ ∃ header s rest, data = amfCode .string :: (header ++ s) ++ rest ∧
    IsU29 header (2 * s.length + 1)

/-- The message has more strings than `string_ref` has entries. -/
def Overfull (d : List UInt8) : Prop := ∃ refs rest, Due [] 1 d refs rest ∧ FullAt refs rest

def leafType : AmfType → Bool
  | .undefine | .null | .false | .true | .integer | .sinteger | .string | .double | .byteArray => Bool.true
  | .array | .xmlDoc | .date | .object | .xml => Bool.false

/-! ## Numbers -/

theorem decodeU29Loop_last {i : ℕ} (n : ℕ) {c : UInt8} (hi : i ≠ 3) (hc : c.toNat < 128) (data : List UInt8) :
    decodeU29Loop i n (c :: data) = some (n + c.toNat, data) := by
  have h7 : ¬ c.toNat / 2 ^ 7 ≠ 0 := by omega
  have hmod : c.toNat % 2 ^ 7 = c.toNat := by omega
  simp only [decodeU29Loop, if_pos hi, if_neg h7, hmod]

theorem decodeU29Loop_more {i : ℕ} (n : ℕ) {c : UInt8} (hi : i < 2) (hc : 128 ≤ c.toNat) (data : List UInt8) :
    decodeU29Loop i n (c :: data) = decodeU29Loop (i + 1) ((n + (c.toNat - 128)) * 2 ^ 7) data := by
  have := c.toNat_lt
  have h7 : c.toNat / 2 ^ 7 ≠ 0 := by omega
  have hmod : c.toNat % 2 ^ 7 = c.toNat - 128 := by omega
  rw [decodeU29Loop, if_pos (by omega), if_pos h7, if_pos (by omega), hmod]

theorem decodeU29Loop_third (n : ℕ) {c : UInt8} (hc : 128 ≤ c.toNat) (data : List UInt8) :
    decodeU29Loop 2 n (c :: data) = decodeU29Loop 3 ((n + (c.toNat - 128)) * 2 ^ 8) data := by
  have := c.toNat_lt
  have h7 : c.toNat / 2 ^ 7 ≠ 0 := by omega
  have hmod : c.toNat % 2 ^ 7 = c.toNat - 128 := by omega
  rw [decodeU29Loop, if_pos (by omega), if_pos h7, if_neg (by omega), hmod]

theorem decodeU29Loop_fourth (n : ℕ) (c : UInt8) (data : List UInt8) :
    decodeU29Loop 3 n (c :: data) = some (n + c.toNat, data) := rfl

theorem amfDecodeU29_complete {bs : List UInt8} {n : ℕ} (h : IsU29 bs n) (rest : List UInt8) :
    amfDecodeU29 (bs ++ rest) = some (n, rest) := by
  cases h with
  | one ha =>
    rw [amfDecodeU29, cons_append, decodeU29Loop_last 0 (by omega) ha, Nat.zero_add, nil_append]
  | two ha hb =>
    rw [amfDecodeU29, cons_append, decodeU29Loop_more 0 (by omega) ha, cons_append,
      decodeU29Loop_last _ (by omega) hb, Nat.zero_add, nil_append]
  | three ha hb hc =>
    rw [amfDecodeU29, cons_append, decodeU29Loop_more 0 (by omega) ha, cons_append,
      decodeU29Loop_more _ (by omega) hb, cons_append, decodeU29Loop_last _ (by omega) hc,
      nil_append, some_inj, Prod.mk.injEq]
    exact ⟨by omega, rfl⟩
  | four ha hb hc =>
    rw [amfDecodeU29, cons_append, decodeU29Loop_more 0 (by omega) ha, cons_append,
      decodeU29Loop_more _ (by omega) hb, cons_append, decodeU29Loop_third _ hc, cons_append,
      decodeU29Loop_fourth, nil_append, some_inj, Prod.mk.injEq]
    exact ⟨by omega, rfl⟩

theorem decodeU29Loop_cases {i n v : ℕ} {data rest : List UInt8} (hi : i ≠ 3)
    (h : decodeU29Loop i n data = some (v, rest)) :
    ∃ c data', data = c :: data' ∧ ((c.toNat < 128 ∧ v = n + c.toNat ∧ rest = data') ∨ 128 ≤ c.toNat) := by
  cases data with
  | nil => cases h
  | cons c data =>
    refine ⟨c, data, rfl, ?_⟩
    by_cases hc : c.toNat < 128
    · rw [decodeU29Loop_last n hi hc, some_inj, Prod.mk.injEq] at h
      exact Or.inl ⟨hc, h.1.symm, h.2.symm⟩
    · exact Or.inr (Nat.not_lt.mp hc)

theorem amfDecodeU29_sound {data rest : List UInt8} {n : ℕ} (h : amfDecodeU29 data = some (n, rest)) :
    ∃ bs, data = bs ++ rest ∧ IsU29 bs n := by
  rw [amfDecodeU29] at h
  obtain ⟨a, data, rfl, ⟨ha, rfl, rfl⟩ | ha⟩ := decodeU29Loop_cases (by omega) h
  · refine ⟨[a], rfl, ?_⟩
    rw [Nat.zero_add]
    exact .one ha
  rw [decodeU29Loop_more 0 (by omega) ha] at h
  obtain ⟨b, data, rfl, ⟨hb, rfl, rfl⟩ | hb⟩ := decodeU29Loop_cases (by omega) h
  · refine ⟨[a, b], rfl, ?_⟩
    rw [Nat.zero_add]
    exact .two ha hb
  rw [decodeU29Loop_more _ (by omega) hb] at h
  obtain ⟨c, data, rfl, ⟨hc, rfl, rfl⟩ | hc⟩ := decodeU29Loop_cases (by omega) h
  · refine ⟨[a, b, c], rfl, ?_⟩
    convert IsU29.three ha hb hc using 1
    omega
  rw [decodeU29Loop_third _ hc] at h
  cases data with
  | nil => cases h
  | cons d data =>
    rw [decodeU29Loop_fourth, some_inj, Prod.mk.injEq] at h
    obtain ⟨rfl, rfl⟩ := h
    refine ⟨[a, b, c, d], rfl, ?_⟩
    convert IsU29.four (d := d) ha hb hc using 1
    omega

theorem u2SInt29_ok {n : ℕ} (h : n ≤ u29Max) : ∃ i, u2SInt29 n = .ok i := by
  have hle : n ≤ 0x1FFFFFFF := h
  rw [u2SInt29, assert_of (decide_eq_true hle), ok_bind]
  split
  · exact ⟨_, rfl⟩
  · exact ⟨_, rfl⟩

/-! ## Decoders -/

theorem dataPop_append (bs rest : List UInt8) : dataPop bs.length (bs ++ rest) = some rest := by
  rw [dataPop, if_neg (by rw [length_append]; omega), drop_left]

theorem dataPop_sound {l : ℕ} {data rest : List UInt8} (h : dataPop l data = some rest) :
    data = data.take l ++ rest ∧ (data.take l).length = l := by
  unfold dataPop at h
  split at h
  · cases h
  · next hlen =>
    rw [some_inj] at h
    subst h
    exact ⟨(take_append_drop l data).symm, length_take_of_le (Nat.not_lt.mp hlen)⟩

theorem amfDecodeInteger_complete {bs : List UInt8} {n : ℕ} (h : IsU29 bs n) (c : UInt8) (rest : List UInt8) :
    amfDecodeInteger (c :: bs ++ rest) = some (n, rest) := by
  have hpos := h.length_pos
  have hlen : ¬ (c :: bs ++ rest).length = 1 := by
    simp only [length_append, length_cons]
    omega
  have hpop : dataPop 1 (c :: bs ++ rest) = some (bs ++ rest) := dataPop_append [c] (bs ++ rest)
  rw [amfDecodeInteger, if_neg hlen, hpop]
  exact amfDecodeU29_complete h rest

theorem amfDecodeInteger_sound {data rest : List UInt8} {n : ℕ} (h : amfDecodeInteger data = some (n, rest)) :
    ∃ c bs, data = c :: (bs ++ rest) ∧ IsU29 bs n := by
  unfold amfDecodeInteger at h
  split at h
  · cases h
  · cases data with
    | nil => cases h
    | cons c data =>
      have hu : amfDecodeU29 data = some (n, rest) := h
      obtain ⟨bs, hbs, hn⟩ := amfDecodeU29_sound hu
      exact ⟨c, bs, by rw [hbs], hn⟩

theorem amfDecodeArray_complete {header : List UInt8} {n : ℕ} (h : IsU29 header (2 * n + 1))
    (data : List UInt8) : amfDecodeArray (amfCode .array :: (header ++ 1 :: data)) = .ok (some (n, data)) := by
  have hodd : ¬ (2 * n + 1) % 2 = 0 := by omega
  have hhalf : (2 * n + 1) / 2 = n := by omega
  rw [amfDecodeArray, assert_of (by rfl), ok_bind, amfDecodeU29_complete h]
  simp only [hodd, if_false, if_true, hhalf, pure_eq_ok]

theorem amfDecodeArray_cases {c : UInt8} (data : List UInt8) (hc : c = amfCode .array) :
    amfDecodeArray (c :: data) = .ok none ∨ ∃ header n rest, data = header ++ 1 :: rest ∧
      IsU29 header (2 * n + 1) ∧ amfDecodeArray (c :: data) = .ok (some (n, rest)) := by
  subst hc
  rw [amfDecodeArray, assert_of (by rfl), ok_bind]
  cases hu : amfDecodeU29 data with
  | none => exact Or.inl rfl
  | some r =>
    obtain ⟨size, data'⟩ := r
    obtain ⟨header, rfl, hsize⟩ := amfDecodeU29_sound hu
    simp only
    by_cases heven : size % 2 = 0
    · rw [if_pos heven]
      exact Or.inl rfl
    rw [if_neg heven]
    cases data' with
    | nil => exact Or.inl rfl
    | cons name data' =>
      by_cases hname : name = 1
      · subst hname
        have hsize' : size = 2 * (size / 2) + 1 := by omega
        exact Or.inr ⟨header, size / 2, data', rfl, hsize' ▸ hsize, rfl⟩
      · simp only [hname, if_false, pure_eq_ok, true_or]

/-! ## Leaves -/

theorem readTag_cons (v : AmfValue) (refs : Refs) (c : UInt8) (rest : List UInt8) :
    readTag v refs (c :: rest) = .ok (some (v, rest, refs)) := by
  rw [readTag, amfDecodeTag, show dataPop 1 (c :: rest) = some rest from dataPop_append [c] rest]

section Reader

variable (stale : Stale) (beyond : Mem)

/-- A reader stands at `data`: whatever it is asked for there, it consumes nothing. -/
def Stuck (refs : Refs) (data : List UInt8) : Prop :=
  (∃ t, amfTypeOf (data.headD (beyond 0)) = some t ∧ leafType t = true) ∧
    ∃ v, ∀ fuel, readAmf stale beyond (fuel + 1) refs data = .ok (some (v, data, refs))

def LeafOutcome (refs : Refs) (data : List UInt8) (res : Except Fault (Read AmfValue)) : Prop :=
  (∃ b v rest refs', data = b ++ rest ∧ Leaf refs b v refs' ∧ refs'.length ≤ stringRefSize ∧
    res = .ok (some (v, rest, refs'))) ∨
  (res = .error .outOfBounds ∧ FullAt refs data) ∨
  ∃ v, res = .ok (some (v, data, refs))

variable {refs : Refs} {data : List UInt8} (hrefs : refs.length ≤ stringRefSize)

include hrefs

theorem readTag_outcome {v : AmfValue} {t : AmfType} (hv : Leaf refs [amfCode t] v refs)
    (hdata : ∀ c data', data = c :: data' → c = amfCode t) : LeafOutcome refs data (readTag v refs data) := by
  cases data with
  | nil => exact Or.inr (Or.inr ⟨v, rfl⟩)
  | cons c data =>
    obtain rfl := hdata c data rfl
    exact Or.inl ⟨[amfCode t], v, data, refs, rfl, hv, hrefs, readTag_cons v refs _ data⟩

theorem readInteger_outcome (hdata : ∀ c data', data = c :: data' → c = amfCode .integer) :
    LeafOutcome refs data (readInteger stale refs data) := by
  unfold readInteger
  cases hd : amfDecodeInteger data with
  | none => exact Or.inr (Or.inr ⟨_, rfl⟩)
  | some r =>
    obtain ⟨n, rest⟩ := r
    obtain ⟨c, bs, rfl, hn⟩ := amfDecodeInteger_sound hd
    obtain rfl := hdata c _ rfl
    exact Or.inl ⟨amfCode .integer :: bs, _, rest, refs, rfl, .integer hn, hrefs, rfl⟩

theorem readSinteger_outcome (hdata : ∀ c data', data = c :: data' → c = amfCode .sinteger) :
    LeafOutcome refs data (readSinteger refs data) := by
  unfold readSinteger
  cases hd : amfDecodeInteger data with
  | none => exact Or.inr (Or.inr ⟨_, rfl⟩)
  | some r =>
    obtain ⟨n, rest⟩ := r
    obtain ⟨c, bs, rfl, hn⟩ := amfDecodeInteger_sound hd
    obtain rfl := hdata c _ rfl
    obtain ⟨i, hi⟩ := u2SInt29_ok hn.le
    refine Or.inl ⟨amfCode .sinteger :: bs, _, rest, refs, rfl, .sinteger hn hi, hrefs, ?_⟩
    simp only [hi, ok_bind, pure_eq_ok]

theorem readDouble_outcome (hdata : ∀ c data', data = c :: data' → c = amfCode .double) :
    LeafOutcome refs data (readDouble stale refs data) := by
  unfold readDouble amfDecodeDouble
  by_cases hlen : data.length < 9
  · rw [if_pos hlen]
    exact Or.inr (Or.inr ⟨_, rfl⟩)
  rw [if_neg hlen]
  cases data with
  | nil => exact absurd (Nat.zero_lt_succ 8) hlen
  | cons c data =>
    obtain rfl := hdata c data rfl
    simp only [length_cons] at hlen
    refine Or.inl ⟨amfCode .double :: data.take 8, _, data.drop 8, refs, ?_,
      .double (length_take_of_le (by omega)), hrefs, rfl⟩
    rw [cons_append, take_append_drop]

theorem readString_outcome (hdata : ∀ c data', data = c :: data' → c = amfCode .string) :
    LeafOutcome refs data (readString refs data) := by
  cases data with
  | nil => exact Or.inr (Or.inr ⟨.string [], rfl⟩)
  | cons c data =>
    obtain rfl := hdata c data rfl
    rw [readString, amfDecodeString, assert_of (by rfl), ok_bind]
    cases hu : amfDecodeU29 data with
    | none => exact Or.inr (Or.inr ⟨.string [], rfl⟩)
    | some r =>
      obtain ⟨size, data'⟩ := r
      obtain ⟨header, rfl, hsize⟩ := amfDecodeU29_sound hu
      simp only
      by_cases heven : size % 2 = 0
      · rw [if_pos heven]
        have hsize' : size = 2 * (size / 2) := by omega
        cases hs : refs[size / 2]? with
        | none => exact Or.inr (Or.inr ⟨.string [], rfl⟩)
        | some s =>
          exact Or.inl ⟨amfCode .string :: header, .string s, data', refs, rfl,
            .stringRef (hsize' ▸ hsize) hs, hrefs, rfl⟩
      rw [if_neg heven]
      cases hp : dataPop (size / 2) data' with
      | none => exact Or.inr (Or.inr ⟨.string [], rfl⟩)
      | some rest =>
        obtain ⟨hsplit, hlen⟩ := dataPop_sound hp
        have hsize' : size = 2 * (data'.take (size / 2)).length + 1 := by omega
        have hbytes : amfCode .string :: (header ++ data') =
            amfCode .string :: (header ++ data'.take (size / 2)) ++ rest := by
          rw [cons_append, append_assoc, ← hsplit]
        simp only
        by_cases hfull : refs.length < stringRefSize
        · refine Or.inl ⟨_, .string (data'.take (size / 2)), rest, refs ++ [data'.take (size / 2)], hbytes,
            .string (hsize' ▸ hsize), ?_, ?_⟩
          · rw [length_append, length_singleton]
            omega
          · rw [if_pos hfull]
            rfl
        · refine Or.inr (Or.inl ⟨?_, by omega, header, _, rest, hbytes, hsize' ▸ hsize⟩)
          rw [if_neg hfull]
          rfl

theorem readByteArray_outcome (hdata : ∀ c data', data = c :: data' → c = amfCode .byteArray) :
    LeafOutcome refs data (readByteArray refs data) := by
  cases data with
  | nil => exact Or.inr (Or.inr ⟨.byteArray [], rfl⟩)
  | cons c data =>
    obtain rfl := hdata c data rfl
    rw [readByteArray, amfDecodeByteArray, assert_of (by rfl), ok_bind]
    cases hu : amfDecodeU29 data with
    | none => exact Or.inr (Or.inr ⟨.byteArray [], rfl⟩)
    | some r =>
      obtain ⟨size, data'⟩ := r
      obtain ⟨header, rfl, hsize⟩ := amfDecodeU29_sound hu
      simp only
      cases hp : dataPop (size / 2) data' with
      | none => exact Or.inr (Or.inr ⟨.byteArray [], rfl⟩)
      | some rest =>
        obtain ⟨hsplit, hlen⟩ := dataPop_sound hp
        refine Or.inl ⟨amfCode .byteArray :: (header ++ data'.take (size / 2)), _, rest, refs, ?_,
          .byteArray hsize hlen.symm, hrefs, rfl⟩
        rw [cons_append, append_assoc, ← hsplit]

theorem leaf_outcome {t : AmfType} (ht : amfTypeOf (data.headD (beyond 0)) = some t) (hleaf : leafType t = true) :
    ∃ res, (∀ fuel, readAmf stale beyond (fuel + 1) refs data = res) ∧ LeafOutcome refs data res := by
  have hdata : ∀ c data', data = c :: data' → c = amfCode t := by
    rintro c data' rfl
    exact amfTypeOf_eq_some ht
  cases t with
  | undefine => exact ⟨_, fun fuel => by rw [readAmf, ht], readTag_outcome hrefs .undefine hdata⟩
  | null => exact ⟨_, fun fuel => by rw [readAmf, ht], readTag_outcome hrefs .null hdata⟩
  | false => exact ⟨_, fun fuel => by rw [readAmf, ht], readTag_outcome hrefs .false hdata⟩
  | true => exact ⟨_, fun fuel => by rw [readAmf, ht], readTag_outcome hrefs .true hdata⟩
  | integer => exact ⟨_, fun fuel => by rw [readAmf, ht], readInteger_outcome stale hrefs hdata⟩
  | sinteger => exact ⟨_, fun fuel => by rw [readAmf, ht], readSinteger_outcome hrefs hdata⟩
  | string => exact ⟨_, fun fuel => by rw [readAmf, ht], readString_outcome hrefs hdata⟩
  | double => exact ⟨_, fun fuel => by rw [readAmf, ht], readDouble_outcome stale hrefs hdata⟩
  | byteArray => exact ⟨_, fun fuel => by rw [readAmf, ht], readByteArray_outcome hrefs hdata⟩
  | array => cases hleaf
  | xmlDoc => cases hleaf
  | date => cases hleaf
  | object => cases hleaf
  | xml => cases hleaf

omit hrefs in
theorem Leaf.read {b : List UInt8} {v : AmfValue} {refs' : Refs} (h : Leaf refs b v refs')
    (hrefs' : refs'.length ≤ stringRefSize) (rest : List UInt8) (fuel : ℕ) :
    readAmf stale beyond (fuel + 1) refs (b ++ rest) = .ok (some (v, rest, refs')) := by
  have htype : ∀ (t : AmfType) (bs : List UInt8),
      amfTypeOf ((amfCode t :: bs).headD (beyond 0)) = some t := fun t _ => amfTypeOf_code t
  cases h with
  | undefine =>
    rw [readAmf, cons_append, htype]
    exact readTag_cons .undefine refs _ rest
  | null =>
    rw [readAmf, cons_append, htype]
    exact readTag_cons .null refs _ rest
  | false =>
    rw [readAmf, cons_append, htype]
    exact readTag_cons .false refs _ rest
  | true =>
    rw [readAmf, cons_append, htype]
    exact readTag_cons .true refs _ rest
  | integer hn =>
    rw [readAmf, cons_append, htype]
    simp only [readInteger, ← cons_append, amfDecodeInteger_complete hn]
  | sinteger hn hi =>
    rw [readAmf, cons_append, htype]
    simp only [readSinteger, ← cons_append, amfDecodeInteger_complete hn, hi, ok_bind, pure_eq_ok]
  | @double bs hlen =>
    have hlong : ¬ (amfCode .double :: (bs ++ rest)).length < 9 := by
      simp only [length_cons, length_append]
      omega
    rw [readAmf, cons_append, htype]
    simp only [readDouble, amfDecodeDouble, hlong, if_false, drop_succ_cons, drop_zero,
      take_left' hlen, drop_left' hlen]
  | @string header s hn =>
    have hodd : ¬ (2 * s.length + 1) % 2 = 0 := by omega
    have hhalf : (2 * s.length + 1) / 2 = s.length := by omega
    rw [length_append, length_singleton] at hrefs'
    have hroom : refs.length < stringRefSize := by omega
    rw [readAmf, cons_append, htype, append_assoc]
    simp only [readString, amfDecodeString, beq_self_eq_true, assert_true, ok_bind,
      amfDecodeU29_complete hn, hodd, if_false, hhalf, dataPop_append, hroom, if_true, take_left,
      pure_eq_ok]
  | @stringRef header s i hn hi =>
    have heven : 2 * i % 2 = 0 := by omega
    have hhalf : 2 * i / 2 = i := by omega
    rw [readAmf, cons_append, htype]
    simp only [readString, amfDecodeString, beq_self_eq_true, assert_true, ok_bind,
      amfDecodeU29_complete hn, heven, if_true, hhalf, hi, pure_eq_ok]
  | @byteArray header s n hn hs =>
    rw [readAmf, cons_append, htype, append_assoc]
    simp only [readByteArray, amfDecodeByteArray, beq_self_eq_true, assert_true, ok_bind,
      amfDecodeU29_complete hn, hs, dataPop_append, take_left, pure_eq_ok]

end Reader

/-! ## Items -/

variable {refs refs' : Refs}

theorem Items.refs_le {bs : List UInt8} {vs : List AmfValue} (h : Items refs bs vs refs') :
    refs.length ≤ refs'.length := by
  induction h with
  | nil => exact le_rfl
  | leaf hv _ ih =>
    refine le_trans ?_ ih
    cases hv <;> simp
  | array _ _ _ ih ih' => exact le_trans ih ih'

theorem Items.append {refs refs₁ refs₂ : Refs} {bs bs' : List UInt8} {vs vs' : List AmfValue}
    (h : Items refs bs vs refs₁) (h' : Items refs₁ bs' vs' refs₂) : Items refs (bs ++ bs') (vs ++ vs') refs₂ := by
  induction h with
  | nil => exact h'
  | leaf hv _ ih =>
    rw [append_assoc]
    exact .leaf hv (ih h')
  | array hn hc _ _ ih =>
    rw [append_assoc]
    exact .array hn hc (ih h')

theorem Leaf.items {b : List UInt8} {v : AmfValue} (h : Leaf refs b v refs') :
    Items refs b [v] refs' := by
  simpa using Items.leaf h (.nil refs')

theorem Items.wrap {header b : List UInt8} {child : List AmfValue}
    (h : IsU29 header (2 * child.length + 1)) (hc : Items refs b child refs') :
    Items refs (amfCode .array :: (header ++ 1 :: b)) [.array (child.map some)] refs' := by
  simpa using Items.array h hc (.nil refs')

theorem Due.refs_le {refs refs' : Refs} {n : ℕ} {data rest : List UInt8} (h : Due refs n data refs' rest) :
    refs.length ≤ refs'.length := by
  induction h with
  | here => exact le_rfl
  | after hv _ ih => exact le_trans hv.refs_le ih
  | inside _ _ ih => exact ih

theorem Due.rest_le {n : ℕ} {data rest : List UInt8} (h : Due refs n data refs' rest) :
    rest.length ≤ data.length := by
  induction h with
  | here => exact le_rfl
  | after _ _ ih =>
    rw [length_append]
    omega
  | inside _ _ ih =>
    simp only [length_cons, length_append]
    omega

theorem Due.mono {n k : ℕ} {data rest : List UInt8} (h : Due refs n data refs' rest)
    (hk : n ≤ k) : Due refs k data refs' rest := by
  induction h generalizing k with
  | here refs n data =>
    obtain ⟨k, rfl⟩ : ∃ j, k = j + 1 := ⟨k - 1, by omega⟩
    exact .here refs k data
  | after hv _ ih =>
    obtain ⟨k, rfl⟩ : ∃ j, k = j + 1 := ⟨k - 1, by omega⟩
    exact .after hv (ih (by omega))
  | inside hn h _ =>
    obtain ⟨k, rfl⟩ : ∃ j, k = j + 1 := ⟨k - 1, by omega⟩
    exact .inside hn h

section Reader

variable (stale : Stale) (beyond : Mem)

theorem readAmf_array {data : List UInt8} (refs : Refs) (fuel : ℕ) :
    readAmf stale beyond (fuel + 1) refs (amfCode .array :: data) =
      readArray (readAmf stale beyond fuel) refs (amfCode .array :: data) := by
  have htype : amfTypeOf ((amfCode .array :: data).headD (beyond 0)) = some .array := amfTypeOf_code .array
  rw [readAmf, htype]

theorem Items.read {refs refs' : Refs} {bs : List UInt8} {vs : List AmfValue} (h : Items refs bs vs refs')
    (hrefs' : refs'.length ≤ stringRefSize) (rest : List UInt8) {fuel : ℕ} (hfuel : bs.length < fuel) :
    readChildren (readAmf stale beyond fuel) vs.length refs (bs ++ rest) = .ok (some (vs, rest, refs')) := by
  induction h generalizing rest fuel with
  | nil => rfl
  | leaf hv hvs ih =>
    rw [length_append] at hfuel
    obtain ⟨fuel, rfl⟩ := exists_succ_of_lt hfuel
    rw [length_cons, readChildren, append_assoc,
      hv.read stale beyond (le_trans hvs.refs_le hrefs'), ok_bind]
    simp only
    rw [ih hrefs' rest (by omega), ok_bind]
    rfl
  | array hn hc hvs ihc ih =>
    simp only [length_append, length_cons] at hfuel
    obtain ⟨fuel, rfl⟩ := exists_succ_of_lt hfuel
    rw [length_cons, readChildren]
    simp only [append_assoc, cons_append]
    rw [readAmf_array, readArray, amfDecodeArray_complete hn, ok_bind]
    simp only
    rw [ihc (le_trans hvs.refs_le hrefs') _ (by omega), ok_bind]
    simp only [pure_eq_ok, ok_bind]
    rw [ih hrefs' rest (by omega), ok_bind]

theorem stuck_children {refs : Refs} {data : List UInt8} {v : AmfValue}
    (h : ∀ fuel, readAmf stale beyond (fuel + 1) refs data = .ok (some (v, data, refs))) {fuel : ℕ}
    (hfuel : 0 < fuel) (n : ℕ) :
    ∃ vs, readChildren (readAmf stale beyond fuel) n refs data = .ok (some (vs, data, refs)) := by
  obtain ⟨fuel, rfl⟩ := exists_succ_of_lt hfuel
  induction n with
  | zero => exact ⟨[], rfl⟩
  | succ n ih =>
    obtain ⟨vs, hvs⟩ := ih
    refine ⟨v :: vs, ?_⟩
    rw [readChildren, h, ok_bind]
    simp only
    rw [hvs, ok_bind]
    rfl

/-- The four ends of reading `n` items; `vals` lists the values of the result. -/
inductive Outcome {α : Type} (vals : α → List AmfValue) (n : ℕ) (refs : Refs) (data : List UInt8) :
    Except Fault (Read α) → Prop
  | complete {bs rest : List UInt8} {a : α} {refs' : Refs} (hdata : data = bs ++ rest)
      (h : Items refs bs (vals a) refs') (hn : (vals a).length = n) (hrefs' : refs'.length ≤ stringRefSize) :
      Outcome vals n refs data (.ok (some (a, rest, refs')))
  | null : Outcome vals n refs data (.ok none)
  | overrun {rest : List UInt8} {refs' : Refs} (h : Due refs n data refs' rest) (hfull : FullAt refs' rest) :
      Outcome vals n refs data (.error .outOfBounds)
  | stuck {rest : List UInt8} {a : α} {refs' : Refs} (h : Due refs n data refs' rest)
      (hrefs' : refs'.length ≤ stringRefSize) (hstuck : Stuck stale beyond refs' rest) :
      Outcome vals n refs data (.ok (some (a, rest, refs')))

theorem readChildren_outcome {fuel : ℕ}
    (hread : ∀ (refs : Refs) (data : List UInt8), data.length < fuel → refs.length ≤ stringRefSize →
      Outcome stale beyond (fun v => [v]) 1 refs data (readAmf stale beyond fuel refs data))
    (n : ℕ) (refs : Refs) (data : List UInt8) (hfuel : data.length < fuel)
    (hrefs : refs.length ≤ stringRefSize) :
    Outcome stale beyond id n refs data (readChildren (readAmf stale beyond fuel) n refs data) := by
  induction n generalizing refs data with
  | zero => exact .complete rfl (.nil refs) rfl hrefs
  | succ n ih =>
    have h := hread refs data hfuel hrefs
    have hpos : 0 < fuel := by omega
    rw [readChildren]
    generalize readAmf stale beyond fuel refs data = x at h
    cases h with
    | null => exact .null
    | overrun h hfull => exact .overrun (h.mono (by omega)) hfull
    | stuck h hrefs' hstuck =>
      obtain ⟨v, hv⟩ := hstuck.2
      obtain ⟨vs, hvs⟩ := stuck_children stale beyond hv hpos n
      simp only [ok_bind, hvs]
      exact .stuck (h.mono (Nat.le_add_left 1 n)) hrefs' hstuck
    | @complete bs rest v refs₁ hdata h hn hrefs' =>
      subst hdata
      rw [length_append] at hfuel
      have h' := ih refs₁ rest (by omega) hrefs'
      simp only [ok_bind]
      generalize readChildren (readAmf stale beyond fuel) n refs₁ rest = y at h'
      cases h' with
      | null => exact .null
      | overrun h' hfull => exact .overrun (.after h h') hfull
      | stuck h' hrefs' hstuck => exact .stuck (.after h h') hrefs' hstuck
      | complete hdata' h' hn' hrefs' =>
        subst hdata'
        refine .complete (append_assoc _ _ _).symm (h.append h') ?_ hrefs'
        simp only [id, length_cons] at hn' ⊢
        omega

theorem readAmf_outcome (fuel : ℕ) (refs : Refs) (data : List UInt8) (hfuel : data.length < fuel)
    (hrefs : refs.length ≤ stringRefSize) :
    Outcome stale beyond (fun v => [v]) 1 refs data (readAmf stale beyond fuel refs data) := by
  induction fuel generalizing refs data with
  | zero => omega
  | succ fuel ih =>
    cases ht : amfTypeOf (data.headD (beyond 0)) with
    | none =>
      rw [readAmf, ht]
      exact .null
    | some t =>
      by_cases hleaf : leafType t = true
      · obtain ⟨res, hres, hout⟩ := leaf_outcome stale beyond hrefs ht hleaf
        rw [hres]
        rcases hout with ⟨b, v, rest, refs', hdata, hv, hrefs', rfl⟩ | ⟨rfl, hfull⟩ | ⟨v, rfl⟩
        · exact .complete hdata hv.items rfl hrefs'
        · exact .overrun (.here refs 0 data) hfull
        · exact .stuck (.here refs 0 data) hrefs ⟨⟨t, ht, hleaf⟩, v, hres⟩
      by_cases harray : t = .array
      · subst harray
        rw [readAmf, ht]
        simp only [readArray]
        cases data with
        | nil => exact .null
        | cons c data =>
          have hc : c = amfCode .array := amfTypeOf_eq_some ht
          rcases amfDecodeArray_cases data hc with hnone | ⟨header, n, rest, hdata, hn, hsome⟩
          · rw [hnone]
            exact .null
          · rw [hsome, ok_bind]
            subst hc hdata
            simp only [length_cons, length_append] at hfuel
            have h := readChildren_outcome stale beyond ih n refs rest (by omega) hrefs
            simp only
            generalize readChildren (readAmf stale beyond fuel) n refs rest = y at h
            cases h with
            | null => exact .null
            | overrun h hfull => exact .overrun (.inside hn h) hfull
            | stuck h hrefs' hstuck => exact .stuck (.inside hn h) hrefs' hstuck
            | complete hdata h hlen hrefs' =>
              subst hdata hlen
              refine .complete ?_ (Items.wrap hn h) rfl hrefs'
              simp only [cons_append, append_assoc]
      · rw [readAmf, ht]
        cases t <;> first | exact .null | exact absurd rfl hleaf | exact absurd rfl harray

/-! ## Where an item is due -/

theorem readChildren_one {read : Refs → List UInt8 → Except Fault (Read AmfValue)} {refs refs' : Refs}
    {data rest : List UInt8} {v : AmfValue} (h : readChildren read 1 refs data = .ok (some ([v], rest, refs'))) :
    read refs data = .ok (some (v, rest, refs')) := by
  simp only [readChildren] at h
  obtain ⟨r, hr, h⟩ := bind_ok_iff.mp h
  match r with
  | none => cases h
  | some (c, data', refs₁) =>
    simp only [ok_bind, pure_eq_ok, Except.ok.injEq, some.injEq, Prod.mk.injEq, cons.injEq,
      and_true] at h
    obtain ⟨rfl, rfl, rfl⟩ := h
    exact hr

/-- The result of reading on to `rest`, where reading an item gives `x`. -/
inductive Reaches {α : Type} (x : Except Fault (Read AmfValue)) (refs' : Refs) (rest : List UInt8) :
    Except Fault (Read α) → Prop
  | fault {e : Fault} (h : x = .error e) : Reaches x refs' rest (.error e)
  | null (h : x = .ok none) : Reaches x refs' rest (.ok none)
  | stuck {v : AmfValue} {a : α} (h : x = .ok (some (v, rest, refs'))) :
      Reaches x refs' rest (.ok (some (a, rest, refs')))

variable {x : Except Fault (Read AmfValue)} {refs' : Refs} {rest : List UInt8}
  (hx : ∀ fuel, readAmf stale beyond (fuel + 1) refs' rest = x)

include hx

theorem reaches_first {fuel n : ℕ} {refs : Refs} {data : List UInt8} (hfuel : 0 < fuel)
    (h : Reaches x refs' rest (readAmf stale beyond fuel refs data)) :
    Reaches x refs' rest (readChildren (readAmf stale beyond fuel) (n + 1) refs data) := by
  rw [readChildren]
  generalize readAmf stale beyond fuel refs data = y at h
  cases h with
  | fault h => exact .fault h
  | null h => exact .null h
  | stuck h =>
    subst h
    obtain ⟨vs, hvs⟩ := stuck_children stale beyond hx hfuel n
    simp only [ok_bind, hvs]
    exact .stuck rfl

theorem Due.reaches {refs : Refs} {n : ℕ} {data : List UInt8} (h : Due refs n data refs' rest)
    (hrefs' : refs'.length ≤ stringRefSize) (hstuck : ∀ r, x = .ok (some r) → r.2 = (rest, refs'))
    {fuel : ℕ} (hfuel : data.length < fuel) :
    Reaches x refs' rest (readChildren (readAmf stale beyond fuel) n refs data) := by
  induction h generalizing fuel with
  | here refs n data =>
    refine reaches_first stale beyond hx (by omega) ?_
    obtain ⟨fuel, rfl⟩ := exists_succ_of_lt hfuel
    rw [hx]
    match x, hstuck with
    | .error e, _ => exact .fault rfl
    | .ok none, _ => exact .null rfl
    | .ok (some (v, r, _)), hstuck =>
      obtain ⟨rfl, rfl⟩ := Prod.mk.inj (hstuck _ rfl)
      exact .stuck rfl
  | @after refs refs₁ refs' n b data rest v hv h ih =>
    rw [length_append] at hfuel
    have hlen : b.length < fuel := by omega
    have hread := readChildren_one (hv.read stale beyond (le_trans h.refs_le hrefs') data hlen)
    have hr : Reaches x refs' rest (readChildren (readAmf stale beyond fuel) n refs₁ data) :=
      ih hx hrefs' hstuck (by omega)
    rw [readChildren, hread, ok_bind]
    simp only
    generalize readChildren (readAmf stale beyond fuel) n refs₁ data = y at hr
    cases hr with
    | fault h => exact .fault h
    | null h => exact .null h
    | stuck h => exact .stuck h
  | @inside refs refs' n k header data rest hk h ih =>
    simp only [length_cons, length_append] at hfuel
    obtain ⟨fuel, rfl⟩ := exists_succ_of_lt hfuel
    have hr : Reaches x refs' rest (readChildren (readAmf stale beyond fuel) k refs data) :=
      ih hx hrefs' hstuck (by omega)
    refine reaches_first stale beyond hx (by omega) ?_
    rw [readAmf_array, readArray, amfDecodeArray_complete hk, ok_bind]
    simp only
    generalize readChildren (readAmf stale beyond fuel) k refs data = y at hr
    cases hr with
    | fault h => exact .fault h
    | null h => exact .null h
    | stuck h => exact .stuck h

end Reader

/-! ## Accepted messages -/

theorem Items.amfRead {bs : List UInt8} {v : AmfValue} {refs : Refs} (h : Items [] bs [v] refs)
    (hrefs : refs.length ≤ stringRefSize) (rest : List UInt8) (stale : Stale) (beyond : Mem) :
    amfRead stale beyond (bs ++ rest) = .ok (some (v, bs.length)) := by
  have hlen : bs.length < (bs ++ rest).length + 1 := by
    rw [length_append]
    omega
  rw [Framework.amfRead, readChildren_one (h.read stale beyond hrefs rest hlen), ok_bind]
  simp only [length_append, Nat.add_sub_cancel, pure_eq_ok]

theorem Due.amfRead {d rest : List UInt8} {refs' : Refs} (h : Due [] 1 d refs' rest)
    (hrefs' : refs'.length ≤ stringRefSize) {stale : Stale} {beyond : Mem} {x : Except Fault (Read AmfValue)}
    (hx : ∀ fuel, readAmf stale beyond (fuel + 1) refs' rest = x)
    (hstuck : ∀ r, x = .ok (some r) → r.2 = (rest, refs')) :
    (∀ e, x = .error e → amfRead stale beyond d = .error e) ∧
    (x = .ok none → amfRead stale beyond d = .ok none) ∧
    (∀ r, x = .ok (some r) → ∃ v, amfRead stale beyond d = .ok (some (v, d.length - rest.length))) := by
  have hr := h.reaches stale beyond hx hrefs' hstuck (Nat.lt_succ_self d.length)
  simp only [readChildren] at hr
  rw [Framework.amfRead]
  generalize readAmf stale beyond (d.length + 1) [] d = y at hr
  match y, hr with
  | .error e, .fault he =>
    subst he
    refine ⟨fun e' he' => ?_, fun h => (by cases h), fun r h => (by cases h)⟩
    cases he'
    rfl
  | .ok none, .null he =>
    subst he
    exact ⟨fun e h => (by cases h), fun _ => rfl, fun r h => (by cases h)⟩
  | .ok (some (v, r, _)), hr =>
    simp only [ok_bind, pure_eq_ok] at hr
    cases hr with
    | stuck he =>
      subst he
      exact ⟨fun e h => (by cases h), fun h => (by cases h), fun _ _ => ⟨v, rfl⟩⟩

theorem FullAt.read {refs : Refs} {data : List UInt8} (h : FullAt refs data) (stale : Stale) (beyond : Mem)
    (fuel : ℕ) : readAmf stale beyond (fuel + 1) refs data = .error .outOfBounds := by
  obtain ⟨hfull, header, s, rest, rfl, hn⟩ := h
  have htype : amfTypeOf ((amfCode .string :: (header ++ s) ++ rest).headD (beyond 0)) = some .string :=
    amfTypeOf_code .string
  have hodd : ¬ (2 * s.length + 1) % 2 = 0 := by omega
  have hhalf : (2 * s.length + 1) / 2 = s.length := by omega
  have hroom : ¬ refs.length < stringRefSize := by omega
  rw [readAmf, htype, cons_append, append_assoc]
  simp only [readString, amfDecodeString, beq_self_eq_true, assert_true, ok_bind, amfDecodeU29_complete hn,
    hodd, if_false, hhalf, dataPop_append, hroom]
  rfl

theorem amfRead_ok_iff (stale : Stale) (beyond : Mem) (d : List UInt8) :
    (∃ out, amfRead stale beyond d = .ok out) ↔ ¬ Overfull d := by
  constructor
  · rintro ⟨out, hout⟩ ⟨refs, rest, hdue, hfull⟩
    have hfault := (hdue.amfRead hfull.1.le (hfull.read stale beyond) (by rintro r ⟨⟩)).1 _ rfl
    rw [hout] at hfault
    cases hfault
  · intro hover
    have h := readAmf_outcome stale beyond (d.length + 1) [] d (Nat.lt_succ_self _) (Nat.zero_le _)
    rw [Framework.amfRead]
    generalize readAmf stale beyond (d.length + 1) [] d = y at h
    cases h with
    | null => exact ⟨_, rfl⟩
    | overrun h hfull => exact absurd ⟨_, _, h, hfull⟩ hover
    | complete hdata h hn hrefs' => exact ⟨_, rfl⟩
    | stuck h hrefs' hstuck => exact ⟨_, rfl⟩

/-- The reader runs inside its tables, and what it accepts with its whole length is complete and does not
depend on what lies behind the message or in uninitialised locals. -/
def AcceptsOnlyComplete (stale : Stale) (beyond : Mem) (d : List UInt8) : Prop :=
  ∃ out, amfRead stale beyond d = .ok out ∧ ∀ v, out = some (v, d.length) →
    Complete d v ∧ ∀ stale' beyond', amfRead stale' beyond' d = .ok out

def LeafBehind (beyond : Mem) : Prop := ∃ t, amfTypeOf (beyond 0) = some t ∧ leafType t = true

theorem readAmf_nil {beyond : Mem} (h : LeafBehind beyond) (stale : Stale) {refs : Refs}
    (hrefs : refs.length ≤ stringRefSize) :
    ∃ v, ∀ fuel, readAmf stale beyond (fuel + 1) refs [] = .ok (some (v, [], refs)) := by
  obtain ⟨t, ht, hleaf⟩ := h
  have hnil : amfTypeOf (([] : List UInt8).headD (beyond 0)) = some t := ht
  obtain ⟨res, hres, hout⟩ := leaf_outcome stale beyond hrefs hnil hleaf
  rcases hout with ⟨b, v, rest, refs', hdata, hv, -, -⟩ | ⟨-, -, header, s, rest, hdata, -⟩ | ⟨v, rfl⟩
  · obtain ⟨rfl, rfl⟩ := append_eq_nil_iff.mp hdata.symm
    cases hv
  · cases hdata
  · exact ⟨v, hres⟩

/-- The reader accepts only complete messages, except where a message ends with an item still due and
the byte behind it is the type of a leaf, or where a message has too many strings. -/
theorem acceptsOnlyComplete_iff (stale : Stale) (beyond : Mem) (d : List UInt8) :
    AcceptsOnlyComplete stale beyond d ↔ ¬ (Cut d ∧ LeafBehind beyond) ∧ ¬ Overfull d := by
  constructor
  · rintro ⟨out, hout, haccept⟩
    constructor
    · rintro ⟨⟨refs, hdue, hrefs⟩, hbehind⟩
      obtain ⟨v, hv⟩ := readAmf_nil hbehind stale hrefs
      obtain ⟨-, -, hsome⟩ := hdue.amfRead hrefs hv (by rintro r ⟨⟩; rfl)
      obtain ⟨v', hv'⟩ := hsome _ rfl
      rw [hout, Except.ok.injEq] at hv'
      have hother := (haccept v' hv').2 stale fun _ => amfCode .xmlDoc
      have hx : ∀ fuel, readAmf stale (fun _ => amfCode .xmlDoc) (fuel + 1) refs [] = .ok none := fun _ => rfl
      have hnull := (hdue.amfRead hrefs hx (by rintro r ⟨⟩)).2.1 rfl
      rw [hnull, hv'] at hother
      cases hother
    · exact (amfRead_ok_iff stale beyond d).mp ⟨out, hout⟩
  · rintro ⟨hcut, hover⟩
    have h := readAmf_outcome stale beyond (d.length + 1) [] d (Nat.lt_succ_self _) (Nat.zero_le _)
    unfold AcceptsOnlyComplete
    rw [amfRead]
    generalize hy : readAmf stale beyond (d.length + 1) [] d = y at h
    cases h with
    | null => exact ⟨none, rfl, fun v hv => by cases hv⟩
    | overrun h hfull => exact absurd ⟨_, _, h, hfull⟩ hover
    | @complete bs rest v refs' hdata h hn hrefs' =>
      refine ⟨_, rfl, fun v' hv' => ?_⟩
      simp only [some.injEq, Prod.mk.injEq] at hv'
      obtain ⟨rfl, hlen⟩ := hv'
      have hrest : rest = [] := by
        apply eq_nil_of_length_eq_zero
        rw [hdata, length_append] at hlen
        omega
      rw [hrest, append_nil] at hdata
      subst hdata
      refine ⟨⟨refs', h⟩, fun stale' beyond' => ?_⟩
      have hread := h.amfRead hrefs' [] stale' beyond'
      rw [append_nil, hlen.symm] at hread
      exact hread
    | @stuck rest v refs' h hrefs' hstuck =>
      refine ⟨_, rfl, fun v' hv' => ?_⟩
      simp only [some.injEq, Prod.mk.injEq] at hv'
      have hrest : rest = [] := by
        apply eq_nil_of_length_eq_zero
        have := h.rest_le
        omega
      subst hrest
      exact absurd ⟨⟨refs', h, hrefs'⟩, hstuck.1⟩ hcut

/-- An array header that announces one child, at the end of the message with a null type byte behind
it, is accepted as `[null]`. -/
theorem accepts_announced_child : ¬ AcceptsOnlyComplete ⟨0, 0⟩ (fun _ => 1) [9, 3, 1] := by
  rintro ⟨out, hout, haccept⟩
  have hread : amfRead ⟨0, 0⟩ (fun _ => 1) [9, 3, 1] = .ok (some (.array [some .null], 3)) := rfl
  rw [hread, Except.ok.injEq] at hout
  have hother := (haccept _ hout.symm).2 ⟨0, 0⟩ fun _ => 7
  have hnull : amfRead ⟨0, 0⟩ (fun _ => 7) [9, 3, 1] = .ok none := rfl
  rw [hnull, ← hout] at hother
  cases hother

end CServer.Framework
