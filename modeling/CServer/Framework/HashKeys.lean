import CServer.Framework.Hash
import CServer.Framework.Map

/-! # `framework/hash.c`: string keys, and keys that change

The table reads the key of an element from the element's datum, so that a caller can change it in place. A chain stays
sorted if the new key leads to the same bucket and to the same place in it.
-/
namespace CServer.Framework
open CServer.Lib Function

/-! ## String keys -/

def memcmp : List UInt8 → List UInt8 → ℤ
  | a :: as, b :: bs => if a = b then memcmp as bs else (a.toNat : ℤ) - b.toNat
  | _, _ => 0

def defaultCmpKey (key₁ key₂ : CString) : ℤ :=
  if key₁.val.length < key₂.val.length then -1
  else if key₂.val.length < key₁.val.length then 1
  else memcmp key₁.val key₂.val

def charToUInt (c : UInt8) : UInt32 := if c < 128 then c.toUInt32 else c.toUInt32 - 256

def defaultHashKey (key : CString) : UInt32 :=
  key.val.foldl (fun nhash c => nhash + ((nhash <<< 5) + nhash + charToUInt c)) 0

theorem memcmp_self (as : List UInt8) : memcmp as as = 0 := by
  induction as with
  | nil => rfl
  | cons a as ih => rw [memcmp, if_pos rfl, ih]

theorem eq_of_memcmp (as : List UInt8) : ∀ bs : List UInt8, as.length = bs.length → memcmp as bs = 0 → as = bs := by
  induction as with
  | nil => exact fun bs hlen _ => (List.length_eq_zero_iff.mp hlen.symm).symm
  | cons a as ih =>
    intro bs hlen hzero
    cases bs with
    | nil => cases hlen
    | cons b bs =>
      rw [memcmp] at hzero
      by_cases hab : a = b
      · rw [if_pos hab] at hzero
        rw [hab, ih bs (Nat.succ.inj hlen) hzero]
      · rw [if_neg hab] at hzero
        exact absurd (UInt8.toNat_inj.mp (by omega)) hab

theorem memcmp_swap (as : List UInt8) : ∀ bs : List UInt8, memcmp bs as = -memcmp as bs := by
  induction as with
  | nil =>
    intro bs
    cases bs with
    | nil => rfl
    | cons b bs => rfl
  | cons a as ih =>
    intro bs
    cases bs with
    | nil => rfl
    | cons b bs =>
      rw [memcmp, memcmp]
      by_cases hab : a = b
      · rw [if_pos hab.symm, if_pos hab, ih]
      · rw [if_neg (Ne.symm hab), if_neg hab]
        omega

theorem memcmp_trans (as : List UInt8) : ∀ bs cs : List UInt8, memcmp as bs < 0 → memcmp bs cs < 0 → memcmp as cs < 0 := by
  induction as with
  | nil => exact fun bs cs h _ => absurd h (by rw [memcmp]; all_goals simp)
  | cons a as ih =>
    intro bs cs hab hbc
    cases bs with
    | nil => exact absurd hab (lt_irrefl 0)
    | cons b bs =>
      cases cs with
      | nil => exact absurd hbc (lt_irrefl 0)
      | cons c cs =>
        rw [memcmp] at hab hbc ⊢
        by_cases h1 : a = b
        · subst h1
          rw [if_pos rfl] at hab
          by_cases h2 : a = c
          · rw [if_pos h2] at hbc ⊢
            exact ih bs cs hab hbc
          · rw [if_neg h2] at hbc ⊢
            exact hbc
        · rw [if_neg h1] at hab
          by_cases h2 : b = c
          · subst h2
            rw [if_neg h1]
            exact hab
          · rw [if_neg h2] at hbc
            have hac : a ≠ c := by
              rintro rfl
              omega
            rw [if_neg hac]
            omega

variable {K D : Type}

def stringFuncs (getKey : D → CString) : HashFuncs CString D where
  getKey := getKey
  hashKey := defaultHashKey
  cmpKey := defaultCmpKey
  cmp_eq := by
    intro a b
    rw [defaultCmpKey]
    constructor
    · intro h
      split at h
      · cases h
      · split at h
        · cases h
        · exact Subtype.ext (eq_of_memcmp a.val b.val (by omega) h)
    · rintro rfl
      rw [if_neg (lt_irrefl _), if_neg (lt_irrefl _), memcmp_self]
  cmp_swap := by
    intro a b
    rw [defaultCmpKey, defaultCmpKey]
    rcases lt_trichotomy a.val.length b.val.length with h | h | h
    · rw [if_pos h, if_neg h.not_gt, if_pos h]
      decide
    · rw [if_neg h.not_lt, if_neg h.not_gt, if_neg h.not_gt, if_neg h.not_lt, memcmp_swap a.val b.val]
      omega
    · rw [if_neg h.not_gt, if_pos h, if_pos h]
      decide
  cmp_trans := by
    intro a b c hab hbc
    rw [defaultCmpKey] at hab hbc ⊢
    by_cases h : a.val.length < c.val.length
    · rw [if_pos h]
      decide
    · have hlen : b.val.length ≤ c.val.length ∧ a.val.length ≤ b.val.length := by
        constructor
        · by_contra hlt
          rw [if_neg (by omega), if_pos (by omega)] at hbc
          exact absurd hbc (by decide)
        · by_contra hlt
          rw [if_neg (by omega), if_pos (by omega)] at hab
          exact absurd hab (by decide)
      rw [if_neg (by omega), if_neg (by omega)] at hab hbc ⊢
      exact memcmp_trans a.val b.val c.val hab hbc

/-! ## Keys that change -/

variable {fs fs' : HashFuncs K D} {h : Hash D} {rows : ℕ → List ℕ} {f : K → Option D}

theorem Hash.Holds.congr_funcs (hh : h.Holds fs f rows) (hcmp : fs'.cmpKey = fs.cmpKey) (hhash : fs'.hashKey = fs.hashKey)
    (hkey : ∀ a ∈ elements rows h.bucketsSize, h.keyOf fs' a = h.keyOf fs a) : h.Holds fs' f rows := by
  have hs := hh.sorted
  refine ⟨⟨hs.table, fun i hi => ?_, hs.live, fun a ha => ?_, hs.size⟩, hh.power, hh.count, hh.count_lt, fun a ha => ?_,
    fun k hk => ?_⟩
  · refine (hs.sorted i hi).imp_of_mem fun {a b} ha hb hab => ?_
    rw [Hash.before, hcmp, hkey a (mem_elements.mpr ⟨i, hi, ha⟩), hkey b (mem_elements.mpr ⟨i, hi, hb⟩)]
    exact hab
  · rw [hhash, hkey a ha]
    exact hs.hash a ha
  · rw [hkey a ha]
    exact hh.present a ha
  · refine hh.absent k fun a ha => ?_
    rw [← hkey a ha]
    exact hk a ha

structure Hash.Rekeyed (fs fs' : HashFuncs K D) (h : Hash D) (rows : ℕ → List ℕ) (e : ℕ) : Prop where
  cmp : fs'.cmpKey = fs.cmpKey
  hash : fs'.hashKey = fs.hashKey
  mem : e ∈ elements rows h.bucketsSize
  other : ∀ a ∈ elements rows h.bucketsSize, a ≠ e → h.keyOf fs' a = h.keyOf fs a
  ne : h.keyOf fs' e ≠ h.keyOf fs e
  bucket : (fs.hashKey (h.keyOf fs' e)).toNat % h.bucketsSize = (fs.hashKey (h.keyOf fs e)).toNat % h.bucketsSize
  place : ∀ a ∈ elements rows h.bucketsSize, a ≠ e →
    (fs.hashKey (h.keyOf fs a)).toNat % h.bucketsSize = (fs.hashKey (h.keyOf fs e)).toNat % h.bucketsSize →
    (fs.cmpKey (h.keyOf fs a) (h.keyOf fs e) < 0 → fs.cmpKey (h.keyOf fs a) (h.keyOf fs' e) < 0) ∧
      (fs.cmpKey (h.keyOf fs e) (h.keyOf fs a) < 0 → fs.cmpKey (h.keyOf fs' e) (h.keyOf fs a) < 0)

def Hash.rehash (fs' : HashFuncs K D) (h : Hash D) (e : ℕ) : Hash D :=
  { h with hashVal := update h.hashVal e (fs'.hashKey (h.keyOf fs' e)).toNat }

theorem Hash.Rekeyed.sorted {e : ℕ} (hr : h.Rekeyed fs fs' rows e) (hs : h.Sorted fs rows) :
    (h.rehash fs' e).Sorted fs' rows := by
  have hval : ∀ a, a ≠ e → (h.rehash fs' e).hashVal a = h.hashVal a := fun a hae => update_of_ne hae _ _
  have hself : (h.rehash fs' e).hashVal e = (fs'.hashKey (h.keyOf fs' e)).toNat := update_self ..
  have hpos : ∀ i < h.bucketsSize, ∀ a ∈ rows i, (fs.hashKey (h.keyOf fs a)).toNat % h.bucketsSize = i := by
    intro i hi a ha
    rw [← hs.hash a (mem_elements.mpr ⟨i, hi, ha⟩)]
    exact hs.table.place i hi a ha
  refine ⟨hs.table.congr_pos fun a ha => ?_, fun i hi => ?_, hs.live, fun a ha => ?_, hs.size⟩
  · change _ % h.bucketsSize = h.hashVal a % h.bucketsSize
    by_cases hae : a = e
    · rw [hae, hself, hr.hash, hr.bucket, ← hs.hash e hr.mem]
    · rw [hval a hae]
  · refine (hs.sorted i hi).imp_of_mem fun {a b} ha hb hab => ?_
    have hma := mem_elements.mpr ⟨i, hi, ha⟩
    have hmb := mem_elements.mpr ⟨i, hi, hb⟩
    rw [Hash.before, hr.cmp]
    by_cases hae : a = e
    · subst hae
      have hba : b ≠ a := by
        rintro rfl
        exact Hash.before_ne hab rfl
      have hsame := (hpos i hi b hb).trans (hpos i hi a ha).symm
      change fs.cmpKey (h.keyOf fs' a) (h.keyOf fs' b) < 0
      rw [hr.other b hmb hba]
      exact (hr.place b hmb hba hsame).2 hab
    · by_cases hbe : b = e
      · subst hbe
        have hsame := (hpos i hi a ha).trans (hpos i hi b hb).symm
        change fs.cmpKey (h.keyOf fs' a) (h.keyOf fs' b) < 0
        rw [hr.other a hma hae]
        exact (hr.place a hma hae hsame).1 hab
      · change fs.cmpKey (h.keyOf fs' a) (h.keyOf fs' b) < 0
        rw [hr.other a hma hae, hr.other b hmb hbe]
        exact hab
  · by_cases hae : a = e
    · rw [hae, hself]
      rfl
    · rw [hval a hae, hs.hash a ha, hr.hash, ← hr.other a ha hae]
      rfl

theorem Hash.Rekeyed.fresh {e : ℕ} (hr : h.Rekeyed fs fs' rows e) (hh : h.Holds fs f rows) : f (h.keyOf fs' e) = none := by
  refine hh.absent _ fun a ha hk => ?_
  by_cases hae : a = e
  · rw [hae] at hk
    exact hr.ne hk.symm
  · have hne : fs.cmpKey (h.keyOf fs a) (h.keyOf fs e) ≠ 0 := fun hz => hae (hh.sorted.once ha hr.mem ((fs.cmp_eq _ _).mp hz))
    have hself := fs.cmp_self (h.keyOf fs' e)
    have hplace := hr.place a ha hae (by rw [hk, hr.bucket])
    rw [hk] at hplace hne
    have hswap := fs.cmp_swap (h.keyOf fs' e) (h.keyOf fs e)
    omega

theorem Hash.Holds.rekey [DecidableEq K] {e : ℕ} (hh : h.Holds fs f rows) (hr : h.Rekeyed fs fs' rows e) :
    (h.rehash fs' e).Holds fs' (update (update f (h.keyOf fs e) none) (h.keyOf fs' e) (some (h.data e)))
      rows := by
  have hfresh := hr.fresh hh
  refine ⟨hr.sorted hh.sorted, hh.power, hh.count, hh.count_lt, fun a ha => ?_, fun k hk => ?_⟩
  · by_cases hae : a = e
    · rw [hae]
      exact update_self ..
    · have hold : h.keyOf fs a ≠ h.keyOf fs e := fun hk => hae (hh.sorted.once ha hr.mem hk)
      have hnew : h.keyOf fs a ≠ h.keyOf fs' e := by
        intro hk
        have hpresent := hh.present a ha
        rw [hk, hfresh] at hpresent
        cases hpresent
      change (update (update f (h.keyOf fs e) none) (h.keyOf fs' e) (some (h.data e)) : K → Option D)
        (h.keyOf fs' a) = some (h.data a)
      rw [hr.other a ha hae, update_of_ne hnew, update_of_ne hold]
      exact hh.present a ha
  · have hke : k ≠ h.keyOf fs' e := fun hke => hk e hr.mem hke.symm
    rw [update_of_ne hke]
    by_cases hkold : k = h.keyOf fs e
    · rw [hkold, update_self]
    · rw [update_of_ne hkold]
      refine hh.absent k fun a ha hka => ?_
      by_cases hae : a = e
      · rw [hae] at hka
        exact hkold hka.symm
      · exact hk a ha ((hr.other a ha hae).trans hka)

theorem Hash.Rekeyed.hashInsert [DecidableEq K] {e : ℕ} (hr : h.Rekeyed fs fs' rows e) (hh : h.Holds fs f rows) (null : D)
    (ok : Bool) : CServer.Framework.hashInsert fs' null h (h.data e) ok = .ok (h.rehash fs' e, h.data e) := by
  have hh' := hh.rekey hr
  rcases hh'.find (fs'.getKey (h.data e)) with ⟨a, ys, zs, -, ha, hk, -, hfind⟩ | ⟨-, hno, -⟩
  · have hae : a = e := hh'.sorted.once ha hr.mem hk
    rw [hae] at hfind
    have hfind' : findElement fs' h ((fs'.hashKey (fs'.getKey (h.data e))).toNat % h.bucketsSize) (fs'.getKey (h.data e)) =
        .ok (ys.getLast?, some e) := hfind
    simp only [CServer.Framework.hashInsert, bucketIndex_ok hh.sorted, ok_bind, hfind', update_eq_self]
    rfl
  · exact absurd rfl (hno e hr.mem)

/-! ## The end of a table -/

/-- `free_element`: the links and what has been freed. What `free` leaves in an element is `garbage`, and freeing an
element twice is a fault. -/
def freeElement (garbage : ℕ → Option ℕ) (s : (ℕ → Option ℕ) × List ℕ) (e : ℕ) :
    Except Fault ((ℕ → Option ℕ) × List ℕ) := do
  CServer.Lib.assert (decide (e ∉ s.2))
  return (update s.1 e (garbage e), s.2 ++ [e])

def hashDestory (garbage : ℕ → Option ℕ) (h : Hash D) : Except Fault (List ℕ) := do
  let s ← drainTable Prod.fst (freeElement garbage) (h.fresh + 1) h.links.buckets h.bucketsSize 0 (h.links.next, [])
  return s.2

theorem freeElement_ok {es : List ℕ} (hnodup : es.Nodup) (garbage : ℕ → Option ℕ) (s : (ℕ → Option ℕ) × List ℕ) (e : ℕ)
    (rest : List ℕ) (h : s.2 ++ e :: rest = es) : ∃ s', freeElement garbage s e = .ok s' ∧ s'.2 ++ rest = es ∧
      ∀ a ∈ rest, s'.1 a = s.1 a := by
  rw [← h, List.nodup_append] at hnodup
  obtain ⟨-, hrest, happart⟩ := hnodup
  have he : e ∉ s.2 := fun hmem => happart e hmem e List.mem_cons_self rfl
  refine ⟨(update s.1 e (garbage e), s.2 ++ [e]), ?_, ?_, ?_⟩
  · rw [freeElement, assert_of (decide_eq_true he)]
    rfl
  · simpa using h
  · intro a ha
    apply update_of_ne
    rintro rfl
    exact (List.nodup_cons.mp hrest).1 ha

theorem hashDestory_frees (hh : h.Holds fs f rows) (garbage : ℕ → Option ℕ) :
    hashDestory garbage h = .ok (elements rows h.bucketsSize) := by
  have hs := hh.sorted
  obtain ⟨s, hdrain, hfreed⟩ := @drainTable_ok _ Prod.fst (freeElement garbage)
    (fun rest s => s.2 ++ rest = elements rows h.bucketsSize) (freeElement_ok hs.table.elements_nodup garbage)
    (h.fresh + 1) h.links.buckets rows h.bucketsSize 0 (h.links.next, []) (by rw [← List.range_eq_range']; rfl)
    (fun j _ hj => ⟨hs.row_length (by omega), hs.table.chain j (by omega)⟩)
  rw [List.append_nil] at hfreed
  rw [← hfreed, hashDestory, hdrain]
  rfl

/-- Whatever has been inserted and removed, `hash_destory` frees one element for each key that is left, each once, and
reads none after it is freed. -/
theorem hashDestory_run [DecidableEq K] (fs : HashFuncs K D) (null : D) (garbage : ℕ → Option ℕ) {h₀ : Hash D}
    (hcreate : hashCreate fs null = .ok h₀) (ops : List (HashOp K D))
    (hroom : Along (silent (hashStep fs null)) (Hash.Room fs) h₀ ops) :
    ∃ h outs freed, exec (hashStep fs null) h₀ ops = .ok (h, outs) ∧ hashDestory garbage h = .ok freed ∧
      freed.Nodup ∧ freed.length = hashSize h ∧
      ∀ k d, (∃ a ∈ freed, h.keyOf fs a = k ∧ h.data a = d) ↔
        (specExec (finiteStep fs null) (fun _ => none) ops).1 k = some d := by
  obtain ⟨h, hexec, rows, hh⟩ := exec_simulates_along (hashStep_ok null) ops h₀ (fun _ => none)
    ⟨_, (hashCreate_holds hcreate).1⟩ hroom
  exact ⟨h, _, _, hexec, hashDestory_frees hh garbage, hh.sorted.table.elements_nodup, hh.count.symm, hh.entries⟩

/-- Two numbers in one bucket, one of which is removed again. -/
theorem hashDestory_run_collision : ∃ h₀ h outs freed, hashCreate numberFuncs 0 = .ok h₀ ∧
    exec (hashStep numberFuncs 0) h₀ [.insert 130 true, .insert 2 true, .remove 130] = .ok (h, outs) ∧
    hashDestory (fun _ => none) h = .ok freed ∧ freed.length = 1 := by
  obtain ⟨h₀, hcreate⟩ : ∃ h₀, hashCreate numberFuncs 0 = .ok h₀ := ⟨_, rfl⟩
  have h₀eq : _ = h₀ := Except.ok.inj hcreate
  have hroom : Along (silent (hashStep numberFuncs 0)) (Hash.Room numberFuncs) h₀
      [.insert 130 true, .insert 2 true, .remove 130] := by
    subst h₀eq
    exact .cons (.inr ⟨by decide, fun _ => .inr (by decide)⟩) rfl
      (.cons (.inr ⟨by decide, fun _ => .inr (by decide)⟩) rfl (.cons trivial rfl trivial))
  obtain ⟨h, outs, freed, hexec, hdestory, -, hlength, -⟩ := hashDestory_run numberFuncs 0 (fun _ => none) hcreate _ hroom
  refine ⟨h₀, h, outs, freed, hcreate, hexec, hdestory, ?_⟩
  subst h₀eq
  obtain ⟨rfl, -⟩ := ok_pair_inj hexec
  exact hlength

end CServer.Framework
