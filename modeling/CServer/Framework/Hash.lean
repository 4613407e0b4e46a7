import CServer.Lib.Exec
import CServer.Lib.Buckets

/-! # `framework/hash.c`: the hash table with sorted chains

Generic in the data and in the three functions of the caller: the key of a datum, the hash of a key
and the comparison of keys, a total order. Each chain is sorted by key, and a search stops at the
first larger key. `item_count` and `buckets_size` are `unsigned int`; the table doubles when it
holds as many elements as buckets, unless `malloc` fails. An element is an address; each field of
`struct element` is a function of the address, and `fresh` is the next address `malloc` returns.
-/
namespace CServer.Framework
open CServer.Lib Function List Nat
open Option hiding mem_map

/-! ## The code -/

structure HashFuncs (K D : Type) where
  getKey : D → K
  hashKey : K → UInt32
  cmpKey : K → K → ℤ
  cmp_eq : ∀ a b, cmpKey a b = 0 ↔ a = b
  cmp_swap : ∀ a b, 0 < cmpKey a b ↔ cmpKey b a < 0
  cmp_trans : ∀ a b c, cmpKey a b < 0 → cmpKey b c < 0 → cmpKey a c < 0

structure Hash (D : Type) where
  links : BucketLinks
  data : ℕ → D
  hashVal : ℕ → ℕ
  fresh : ℕ
  itemCount : ℕ
  bucketsSize : ℕ

variable {K D : Type}

section Code

variable (fs : HashFuncs K D)

def bucketIndex (h : Hash D) (hashVal : ℕ) : Except Fault ℕ :=
  if h.bucketsSize = 0 then .error .divisionByZero else .ok (hashVal % h.bucketsSize)

/-- `find_element`: the element before and the element. The parameter `index` is an `int`. -/
def findElement (h : Hash D) (index : ℕ) (key : K) : Except Fault (Option ℕ × Option ℕ) :=
  if 2 ^ 31 ≤ index then .error .outOfBounds
  else
    seek h.links.next
      (fun p =>
        let cmp := fs.cmpKey key (fs.getKey (h.data p))
        if cmp = 0 then .hit else if 0 < cmp then .pass else .stop)
      (h.fresh + 1) none (h.links.buckets index)

def hashInsertElement (h : Hash D) (e : ℕ) : Except Fault (Hash D) := do
  let key := fs.getKey (h.data e)
  let index ← bucketIndex h (h.hashVal e)
  let (prev, old) ← findElement fs h index key
  assert (decide (old = none))
  .ok { h with links := h.links.link index prev e }

/-- `hash_resize`; `ok` says whether its `malloc` succeeds. -/
def hashResize (h : Hash D) (newSize : ℕ) (ok : Bool) : Except Fault (Hash D) :=
  if ok then
    drainTable (fun h => h.links.next) (hashInsertElement fs) (h.fresh + 1) h.links.buckets h.bucketsSize 0
      { h with links := { h.links with buckets := fun _ => none }, bucketsSize := newSize }
  else .ok h

/-- `hash_create`, with memory for the first 128 buckets. What unused memory holds is `null`. -/
def hashCreate (null : D) : Except Fault (Hash D) :=
  hashResize fs ⟨⟨fun _ => none, fun _ => none⟩, fun _ => null, fun _ => 0, 0, 0, 0⟩ 128 true

def hashSize (h : Hash D) : ℕ := h.itemCount

def allocElement (h : Hash D) (data : D) (hashVal : ℕ) : Hash D :=
  { h with
    fresh := h.fresh + 1
    data := update h.data h.fresh data
    hashVal := update h.hashVal h.fresh hashVal }

def addElement (h : Hash D) (index : ℕ) (prev : Option ℕ) (data : D) (hashVal : ℕ) : Hash D :=
  { allocElement h data hashVal with
    links := h.links.link index prev h.fresh
    itemCount := (h.itemCount + 1) % 2 ^ 32 }

def hashInsert (null : D) (h : Hash D) (data : D) (ok : Bool) : Except Fault (Hash D × D) := do
  let key := fs.getKey data
  let hashVal := (fs.hashKey key).toNat
  let index ← bucketIndex h hashVal
  let (prev, e) ← findElement fs h index key
  match e with
  | some e =>
    .ok ({ h with data := update h.data e data, hashVal := update h.hashVal e hashVal },
      h.data e)
  | none => do
    let h := addElement h index prev data hashVal
    if h.bucketsSize ≤ h.itemCount then do
      let h ← hashResize fs h (h.bucketsSize * 2 % 2 ^ 32) ok
      .ok (h, null)
    else .ok (h, null)

def hashRemove (null : D) (h : Hash D) (key : K) : Except Fault (Hash D × D) := do
  let hashVal := (fs.hashKey key).toNat
  let index ← bucketIndex h hashVal
  let (prev, e) ← findElement fs h index key
  match e with
  | none => .ok (h, null)
  | some e =>
    .ok ({ h with links := h.links.unlink index prev e, itemCount := (h.itemCount + (2 ^ 32 - 1)) % 2 ^ 32 },
      h.data e)

def hashGet (null : D) (h : Hash D) (key : K) : Except Fault D := do
  let index ← bucketIndex h (fs.hashKey key).toNat
  let (_, e) ← findElement fs h index key
  match e with
  | some e => .ok (h.data e)
  | none => .ok null

end Code

def hashNext (h : Hash D) (ite : Option ℕ) : Option ℕ :=
  h.links.advance h.bucketsSize (fun e => h.hashVal e % h.bucketsSize) ite

/-! ## The invariant -/

def Hash.keyOf (fs : HashFuncs K D) (h : Hash D) (a : ℕ) : K := fs.getKey (h.data a)

def Hash.before (fs : HashFuncs K D) (h : Hash D) (a b : ℕ) : Prop :=
  fs.cmpKey (h.keyOf fs a) (h.keyOf fs b) < 0

structure Hash.Sorted (fs : HashFuncs K D) (h : Hash D) (rows : ℕ → List ℕ) : Prop where
  table : h.links.Rows h.bucketsSize (fun a => h.hashVal a % h.bucketsSize) rows
  sorted : ∀ i < h.bucketsSize, (rows i).Pairwise (h.before fs)
  live : ∀ a ∈ elements rows h.bucketsSize, a < h.fresh
  hash : ∀ a ∈ elements rows h.bucketsSize, h.hashVal a = (fs.hashKey (h.keyOf fs a)).toNat
  size : 0 < h.bucketsSize ∧ h.bucketsSize ≤ 2 ^ 31

variable {fs : HashFuncs K D} {h : Hash D} {rows : ℕ → List ℕ}

theorem HashFuncs.cmp_self (fs : HashFuncs K D) (k : K) : fs.cmpKey k k = 0 := (fs.cmp_eq k k).mpr rfl

theorem Hash.before_ne {a b : ℕ} (hab : h.before fs a b) : h.keyOf fs a ≠ h.keyOf fs b := by
  intro hk
  rw [Hash.before, hk, fs.cmp_self] at hab
  omega

theorem Hash.Sorted.row_length (hs : h.Sorted fs rows) {i : ℕ} (hi : i < h.bucketsSize) :
    (rows i).length < h.fresh + 1 := by
  have hsub : rows i ⊆ List.range h.fresh := fun a ha =>
    mem_range.mpr (hs.live a (mem_elements.mpr ⟨i, hi, ha⟩))
  have hle := ((hs.table.nodup i hi).subperm hsub).length_le
  rw [length_range] at hle
  omega

theorem Hash.Sorted.mem_row (hs : h.Sorted fs rows) {a : ℕ} (ha : a ∈ elements rows h.bucketsSize) :
    a ∈ rows ((fs.hashKey (h.keyOf fs a)).toNat % h.bucketsSize) := by
  rw [← hs.hash a ha]
  exact (hs.table.mem_iff (mod_lt _ hs.size.1)).mp ha

theorem Hash.Sorted.once (hs : h.Sorted fs rows) {a b : ℕ} (ha : a ∈ elements rows h.bucketsSize)
    (hb : b ∈ elements rows h.bucketsSize) (hk : h.keyOf fs a = h.keyOf fs b) : a = b := by
  have ha' := hs.mem_row ha
  have hb' := hs.mem_row hb
  rw [hk] at ha'
  have hne : (rows ((fs.hashKey (h.keyOf fs b)).toNat % h.bucketsSize)).Pairwise
      (fun a b => h.keyOf fs a ≠ h.keyOf fs b) := (hs.sorted _ (mod_lt _ hs.size.1)).imp Hash.before_ne
  have hsymm : Std.Symm (fun a b => h.keyOf fs a ≠ h.keyOf fs b) := ⟨fun _ _ hab he => hab he.symm⟩
  by_contra hab
  exact hne.forall ha' hb' hab hk

theorem Hash.Sorted.congr {h' : Hash D} (hs : h.Sorted fs rows) (hlinks : h'.links = h.links)
    (hsize : h'.bucketsSize = h.bucketsSize) (hfresh : h.fresh ≤ h'.fresh)
    (hkey : ∀ a ∈ elements rows h.bucketsSize, h'.keyOf fs a = h.keyOf fs a)
    (hhash : ∀ a ∈ elements rows h.bucketsSize, h'.hashVal a = h.hashVal a) : h'.Sorted fs rows := by
  refine ⟨?_, fun i hi => ?_, fun a ha => ?_, fun a ha => ?_, by rw [hsize]; exact hs.size⟩
  · rw [hlinks, hsize]
    refine hs.table.congr_pos (fun a ha => ?_)
    rw [hhash a ha]
  · rw [hsize] at hi
    refine (hs.sorted i hi).imp_of_mem ?_
    intro a b ha hb hab
    rw [Hash.before, hkey a (mem_elements.mpr ⟨i, hi, ha⟩), hkey b (mem_elements.mpr ⟨i, hi, hb⟩)]
    exact hab
  · rw [hsize] at ha
    exact lt_of_lt_of_le (hs.live a ha) hfresh
  · rw [hsize] at ha
    rw [hhash a ha, hkey a ha]
    exact hs.hash a ha

theorem bucketIndex_ok (hs : h.Sorted fs rows) (hashVal : ℕ) :
    bucketIndex h hashVal = .ok (hashVal % h.bucketsSize) := by
  rw [bucketIndex, if_neg (Nat.ne_of_gt hs.size.1)]

theorem findElement_spec (hs : h.Sorted fs rows) {i : ℕ} (hi : i < h.bucketsSize) (key : K) :
    (∃ a ys zs, rows i = ys ++ a :: zs ∧ h.keyOf fs a = key ∧
      findElement fs h i key = .ok (ys.getLast?, some a)) ∨
    ∃ ys zs, rows i = ys ++ zs ∧ (∀ a ∈ ys, fs.cmpKey (h.keyOf fs a) key < 0) ∧
      (∀ a ∈ zs, fs.cmpKey key (h.keyOf fs a) < 0) ∧ findElement fs h i key = .ok (ys.getLast?, none) := by
  have hint : ¬ 2 ^ 31 ≤ i := by
    have := hs.size.2
    omega
  obtain ⟨ys, hpass, hcase⟩ := seek_spec
    (fun p =>
      let cmp := fs.cmpKey key (fs.getKey (h.data p))
      if cmp = 0 then .hit else if 0 < cmp then .pass else .stop) none (hs.row_length hi) (hs.table.chain i hi)
  rw [or_none] at hcase
  rcases hcase with ⟨a, zs, hrow, hhit, hseek⟩ | ⟨zs, hrow, hstop, hseek⟩
  · refine .inl ⟨a, ys, zs, hrow, ?_, by rw [findElement, if_neg hint]; exact hseek⟩
    by_cases hzero : fs.cmpKey key (h.keyOf fs a) = 0
    · exact ((fs.cmp_eq _ _).mp hzero).symm
    · simp only [Hash.keyOf] at hzero
      simp only [hzero, if_false] at hhit
      split at hhit
      · cases hhit
      · cases hhit
  · refine .inr ⟨ys, zs, hrow, fun a ha => ?_, fun a ha => ?_, by rw [findElement, if_neg hint]; exact hseek⟩
    · have hp := hpass a ha
      rw [← fs.cmp_swap]
      by_cases hpos : 0 < fs.cmpKey key (h.keyOf fs a)
      · exact hpos
      · simp only [Hash.keyOf] at hpos
        simp only [hpos, if_false] at hp
        split at hp
        · cases hp
        · cases hp
    · -- the search ended before the first element of `zs`, and the others come after it
      cases zs with
      | nil => simp at ha
      | cons z zs =>
        have hz : fs.cmpKey key (h.keyOf fs z) < 0 := by
          have hst := hstop z (by simp)
          simp only [Hash.keyOf]
          by_contra hge
          by_cases hzero : fs.cmpKey key (fs.getKey (h.data z)) = 0
          · simp [hzero] at hst
          · have hpos : 0 < fs.cmpKey key (fs.getKey (h.data z)) := by omega
            simp [hzero, hpos] at hst
        rcases mem_cons.mp ha with rfl | ha
        · exact hz
        · have hpair := hs.sorted i hi
          rw [hrow] at hpair
          have hza := (pairwise_cons.mp (pairwise_append.mp hpair).2.1).1 a ha
          exact fs.cmp_trans _ _ _ hz hza

theorem Hash.Sorted.link (hs : h.Sorted fs rows) {i e : ℕ} {ys zs : List ℕ} (hi : i < h.bucketsSize)
    (hrow : rows i = ys ++ zs) (hys : ∀ a ∈ ys, h.before fs a e) (hzs : ∀ a ∈ zs, h.before fs e a)
    (hnew : e ∉ elements rows h.bucketsSize) (hlive : e < h.fresh)
    (hhash : h.hashVal e = (fs.hashKey (h.keyOf fs e)).toNat) (hpos : h.hashVal e % h.bucketsSize = i) :
    Hash.Sorted fs { h with links := h.links.link i ys.getLast? e } (update rows i (ys ++ e :: zs)) ∧
      (elements (update rows i (ys ++ e :: zs)) h.bucketsSize).Perm
        (e :: elements rows h.bucketsSize) := by
  have hperm : (elements (update rows i (ys ++ e :: zs)) h.bucketsSize).Perm
      (e :: elements rows h.bucketsSize) := by
    apply elements_update_perm hi
    rw [hrow]
    exact perm_middle
  have hmem : ∀ a, a ∈ elements (update rows i (ys ++ e :: zs)) h.bucketsSize →
      a = e ∨ a ∈ elements rows h.bucketsSize := by
    intro a ha
    exact mem_cons.mp (hperm.mem_iff.mp ha)
  refine ⟨⟨hs.table.link _ ys zs hi hrow rfl hnew hpos, fun j hj => ?_, fun a ha => ?_, fun a ha => ?_, hs.size⟩, hperm⟩
  · by_cases hji : j = i
    · subst hji
      rw [update_self]
      have hpair := hs.sorted j hj
      rw [hrow] at hpair
      obtain ⟨h1, h2, h3⟩ := pairwise_append.mp hpair
      refine pairwise_append.mpr ⟨h1, pairwise_cons.mpr ⟨hzs, h2⟩, fun a ha b hb => ?_⟩
      rcases mem_cons.mp hb with rfl | hb
      · exact hys a ha
      · exact h3 a ha b hb
    · rw [update_of_ne hji]
      exact hs.sorted j hj
  · rcases hmem a ha with rfl | ha
    · exact hlive
    · exact hs.live a ha
  · rcases hmem a ha with rfl | ha
    · exact hhash
    · exact hs.hash a ha

/-! ## Rehashing -/

/-- While the buckets are rebuilt: `rest` are the elements of `es` not yet inserted. -/
structure Rehashing (fs : HashFuncs K D) (h₀ : Hash D) (ns : ℕ) (es : List ℕ) (rest : List ℕ) (h : Hash D) :
    Prop where
  size : h.bucketsSize = ns
  data : h.data = h₀.data
  hashVal : h.hashVal = h₀.hashVal
  fresh : h.fresh = h₀.fresh
  itemCount : h.itemCount = h₀.itemCount
  rows : ∃ rows, h.Sorted fs rows ∧ (elements rows ns ++ rest).Perm es

theorem hashInsertElement_ok {h₀ : Hash D} {rows₀ : ℕ → List ℕ} {ns : ℕ} (h₀s : h₀.Sorted fs rows₀)
    (h : Hash D) (cur : ℕ) (rest : List ℕ)
    (hre : Rehashing fs h₀ ns (elements rows₀ h₀.bucketsSize) (cur :: rest) h) :
    ∃ h', hashInsertElement fs h cur = .ok h' ∧
      Rehashing fs h₀ ns (elements rows₀ h₀.bucketsSize) rest h' ∧
      ∀ a ∈ rest, h'.links.next a = h.links.next a := by
  obtain ⟨hsize, hdata, hval, hfresh, hcount, rows, hs, hperm⟩ := hre
  subst hsize
  have hnodup := hperm.nodup_iff.mpr h₀s.table.elements_nodup
  have hcur : cur ∉ elements rows h.bucketsSize := by
    intro hmem
    exact (nodup_append.mp hnodup).2.2 cur hmem cur (by simp) rfl
  have hcur₀ : cur ∈ elements rows₀ h₀.bucketsSize := hperm.subset (by simp)
  have hkey : ∀ a, h.keyOf fs a = h₀.keyOf fs a := fun a => by rw [Hash.keyOf, Hash.keyOf, hdata]
  have hi : h.hashVal cur % h.bucketsSize < h.bucketsSize := mod_lt _ hs.size.1
  rcases findElement_spec hs hi (h.keyOf fs cur) with ⟨a, ys, zs, hrow, hk, -⟩ | ⟨ys, zs, hrow, hys, hzs, hfind⟩
  · -- an element with this key is already there: it would be `cur` itself
    have ha : a ∈ elements rows h.bucketsSize := mem_elements.mpr ⟨_, hi, by rw [hrow]; simp⟩
    rw [hkey, hkey] at hk
    have hac := h₀s.once (hperm.subset (mem_append_left _ ha)) hcur₀ hk
    exact absurd (hac ▸ ha) hcur
  · have hlive : cur < h.fresh := hfresh ▸ h₀s.live cur hcur₀
    have hhash : h.hashVal cur = (fs.hashKey (h.keyOf fs cur)).toNat := by
      rw [hval, hkey]
      exact h₀s.hash cur hcur₀
    obtain ⟨hs', hgrown⟩ := hs.link hi hrow hys hzs hcur hlive hhash rfl
    have hrest : ∀ a ∈ rest, a ≠ cur ∧ a ∉ elements rows h.bucketsSize := by
      intro a ha
      refine ⟨?_, fun hmem => (nodup_append.mp hnodup).2.2 a hmem a (mem_cons_of_mem _ ha) rfl⟩
      rintro rfl
      exact (nodup_cons.mp (nodup_append.mp hnodup).2.1).1 ha
    refine ⟨{ h with links := h.links.link (h.hashVal cur % h.bucketsSize) ys.getLast? cur }, ?_,
      ⟨rfl, hdata, hval, hfresh, hcount, _, hs', ?_⟩, ?_⟩
    · have hf := hfind
      rw [Hash.keyOf] at hf
      simp only [hashInsertElement, bucketIndex_ok hs, ok_bind, hf, decide_true, assert_true]
    · exact ((hgrown.append_right rest).trans perm_middle.symm).trans hperm
    · intro a ha
      obtain ⟨hac, hmem⟩ := hrest a ha
      refine BucketLinks.link_next hac (fun hp => hmem ?_)
      refine mem_elements.mpr ⟨_, hi, ?_⟩
      rw [hrow]
      exact mem_append_left _ (List.mem_of_getLast? hp)

theorem hashResize_ok (hs : h.Sorted fs rows) {ns : ℕ} (hpos : 0 < ns) (hle : ns ≤ 2 ^ 31) :
    ∃ h' rows', hashResize fs h ns true = .ok h' ∧ h'.Sorted fs rows' ∧ h'.bucketsSize = ns ∧
      (elements rows' ns).Perm (elements rows h.bucketsSize) ∧ h'.data = h.data ∧ h'.itemCount = h.itemCount := by
  have hstart : Rehashing fs h ns (elements rows h.bucketsSize) ((List.range' 0 h.bucketsSize).flatMap rows)
      { h with links := { h.links with buckets := fun _ => none }, bucketsSize := ns } := by
    refine ⟨rfl, rfl, rfl, rfl, rfl, fun _ => [], ⟨rows_empty, fun _ _ => List.Pairwise.nil, ?_, ?_, hpos, hle⟩, ?_⟩
    · intro a ha
      rw [elements_empty] at ha
      exact absurd ha (by simp)
    · intro a ha
      rw [elements_empty] at ha
      exact absurd ha (by simp)
    · rw [elements_empty, nil_append, elements, range_eq_range']
  have hold : ∀ j, 0 ≤ j → j < 0 + h.bucketsSize → (rows j).length < h.fresh + 1 ∧
      Chain h.links.next some none (h.links.buckets j) (rows j) := by
    intro j _ hj
    rw [Nat.zero_add] at hj
    exact ⟨hs.row_length hj, hs.table.chain j hj⟩
  obtain ⟨h', hdrain, hsize, hdata, -, -, hcount, rows', hs', hperm⟩ :=
    drainTable_ok (hashInsertElement_ok hs) h.bucketsSize hstart hold
  rw [append_nil] at hperm
  exact ⟨h', rows', by rw [hashResize, if_pos rfl]; exact hdrain, hs', hsize, hperm, hdata, hcount⟩

/-! ## The contents -/

structure Hash.Holds (fs : HashFuncs K D) (h : Hash D) (f : K → Option D) (rows : ℕ → List ℕ) : Prop where
  sorted : h.Sorted fs rows
  power : ∃ j, h.bucketsSize = 2 ^ j
  count : h.itemCount = (elements rows h.bucketsSize).length
  count_lt : h.itemCount < 2 ^ 32
  present : ∀ a ∈ elements rows h.bucketsSize, f (h.keyOf fs a) = some (h.data a)
  absent : ∀ k, (∀ a ∈ elements rows h.bucketsSize, h.keyOf fs a ≠ k) → f k = none

variable {f : K → Option D}

theorem Hash.Holds.find (hh : h.Holds fs f rows) (key : K) :
    (∃ a ys zs, rows ((fs.hashKey key).toNat % h.bucketsSize) = ys ++ a :: zs ∧
      a ∈ elements rows h.bucketsSize ∧ h.keyOf fs a = key ∧ f key = some (h.data a) ∧
      findElement fs h ((fs.hashKey key).toNat % h.bucketsSize) key = .ok (ys.getLast?, some a)) ∨
    (f key = none ∧ (∀ a ∈ elements rows h.bucketsSize, h.keyOf fs a ≠ key) ∧
      ∃ ys zs, rows ((fs.hashKey key).toNat % h.bucketsSize) = ys ++ zs ∧
      (∀ a ∈ ys, fs.cmpKey (h.keyOf fs a) key < 0) ∧ (∀ a ∈ zs, fs.cmpKey key (h.keyOf fs a) < 0) ∧
      findElement fs h ((fs.hashKey key).toNat % h.bucketsSize) key = .ok (ys.getLast?, none)) := by
  have hi : (fs.hashKey key).toNat % h.bucketsSize < h.bucketsSize := mod_lt _ hh.sorted.size.1
  rcases findElement_spec hh.sorted hi key with ⟨a, ys, zs, hrow, hk, hfind⟩ | ⟨ys, zs, hrow, hys, hzs, hfind⟩
  · have ha : a ∈ elements rows h.bucketsSize := mem_elements.mpr ⟨_, hi, by rw [hrow]; simp⟩
    have hf := hh.present a ha
    rw [hk] at hf
    exact .inl ⟨a, ys, zs, hrow, ha, hk, hf, hfind⟩
  · have hno : ∀ a ∈ elements rows h.bucketsSize, h.keyOf fs a ≠ key := by
      intro a ha hk
      have hmem := hh.sorted.mem_row ha
      rw [hk, hrow] at hmem
      rcases mem_append.mp hmem with hmem | hmem
      · have := hys a hmem
        rw [hk, fs.cmp_self] at this
        omega
      · have := hzs a hmem
        rw [hk, fs.cmp_self] at this
        omega
    exact .inr ⟨hh.absent key hno, hno, ys, zs, hrow, hys, hzs, hfind⟩

theorem hashGet_ok (hh : h.Holds fs f rows) (null : D) (key : K) :
    hashGet fs null h key = .ok ((f key).getD null) := by
  rcases hh.find key with ⟨a, ys, zs, -, -, -, hf, hfind⟩ | ⟨hf, -, ys, zs, -, -, -, hfind⟩
  · simp only [hashGet, bucketIndex_ok hh.sorted, ok_bind, hfind, hf, getD_some]
  · simp only [hashGet, bucketIndex_ok hh.sorted, ok_bind, hfind, hf, getD_none]

@[simp] theorem allocElement_bucketsSize (data : D) (hashVal : ℕ) :
    (allocElement h data hashVal).bucketsSize = h.bucketsSize := rfl

theorem addElement_holds [DecidableEq K] (hh : h.Holds fs f rows) {data : D} {ys zs : List ℕ}
    (hrow : rows ((fs.hashKey (fs.getKey data)).toNat % h.bucketsSize) = ys ++ zs)
    (hys : ∀ a ∈ ys, fs.cmpKey (h.keyOf fs a) (fs.getKey data) < 0)
    (hzs : ∀ a ∈ zs, fs.cmpKey (fs.getKey data) (h.keyOf fs a) < 0)
    (hno : ∀ a ∈ elements rows h.bucketsSize, h.keyOf fs a ≠ fs.getKey data) (hroom : h.itemCount + 1 < 2 ^ 32) :
    ∃ rows', Hash.Holds fs (addElement h ((fs.hashKey (fs.getKey data)).toNat % h.bucketsSize) ys.getLast? data
      (fs.hashKey (fs.getKey data)).toNat) (update f (fs.getKey data) (some data)) rows' := by
  have hs := hh.sorted
  have hi : (fs.hashKey (fs.getKey data)).toNat % h.bucketsSize < h.bucketsSize := mod_lt _ hs.size.1
  have hne : ∀ a ∈ elements rows h.bucketsSize, a ≠ h.fresh := fun a ha => Nat.ne_of_lt (hs.live a ha)
  have hout : h.fresh ∉ elements rows h.bucketsSize := fun hmem => hne _ hmem rfl
  -- the fields of the new element first, then the links
  have hkey : ∀ a ∈ elements rows h.bucketsSize,
      (allocElement h data (fs.hashKey (fs.getKey data)).toNat).keyOf fs a = h.keyOf fs a := by
    intro a ha
    simp only [Hash.keyOf, allocElement, update_of_ne (hne a ha)]
  have hself : (allocElement h data (fs.hashKey (fs.getKey data)).toNat).keyOf fs h.fresh = fs.getKey data := by
    simp only [Hash.keyOf, allocElement, update_self]
  have hs₁ : (allocElement h data (fs.hashKey (fs.getKey data)).toNat).Sorted fs rows :=
    hs.congr rfl rfl (le_succ h.fresh) hkey
      (fun a ha => by simp only [allocElement, update_of_ne (hne a ha)])
  have hsub : ∀ a, a ∈ ys ++ zs → a ∈ elements rows h.bucketsSize := fun a ha =>
    mem_elements.mpr ⟨_, hi, by rw [hrow]; exact ha⟩
  obtain ⟨hs', hperm⟩ := hs₁.link hi hrow
    (fun a ha => by rw [Hash.before, hkey a (hsub a (mem_append_left _ ha)), hself]; exact hys a ha)
    (fun a ha => by rw [Hash.before, hkey a (hsub a (mem_append_right _ ha)), hself]; exact hzs a ha)
    hout (lt_succ_self _) (by rw [hself]; simp only [allocElement, update_self])
    (by simp only [allocElement, update_self])
  rw [allocElement_bucketsSize] at hperm
  refine ⟨_, hs'.congr rfl rfl (le_refl _) (fun _ _ => rfl) (fun _ _ => rfl), hh.power, ?_, ?_, ?_, ?_⟩
  · have hlen := hperm.length_eq
    rw [length_cons, ← hh.count] at hlen
    exact (mod_eq_of_lt hroom).trans hlen.symm
  · exact mod_lt _ (by norm_num)
  · intro a ha
    rcases mem_cons.mp (hperm.mem_iff.mp ha) with rfl | ha
    · simp only [addElement, allocElement, Hash.keyOf, update_self]
    · have hk : fs.getKey (h.data a) ≠ fs.getKey data := hno a ha
      simp only [addElement, allocElement, Hash.keyOf, update_of_ne (hne a ha), update_of_ne hk]
      exact hh.present a ha
  · intro k hk
    have hkd : k ≠ fs.getKey data := by
      rintro rfl
      refine hk h.fresh (hperm.mem_iff.mpr (mem_cons_self ..)) ?_
      simp only [addElement, allocElement, Hash.keyOf, update_self]
    rw [update_of_ne hkd]
    refine hh.absent k (fun a ha => ?_)
    have := hk a (hperm.mem_iff.mpr (mem_cons_of_mem _ ha))
    simpa only [addElement, allocElement, Hash.keyOf, update_of_ne (hne a ha)] using this

theorem Hash.Holds.resize (hh : h.Holds fs f rows) (hsize : h.bucketsSize < 2 ^ 31) :
    ∃ h' rows', hashResize fs h (h.bucketsSize * 2 % 2 ^ 32) true = .ok h' ∧ h'.Holds fs f rows' ∧
      h'.bucketsSize = h.bucketsSize * 2 ∧ h'.itemCount = h.itemCount := by
  obtain ⟨j, hj⟩ := hh.power
  have hpos := hh.sorted.size.1
  have hj31 : j < 31 := by
    rw [hj] at hsize
    exact (Nat.pow_lt_pow_iff_right (by norm_num)).mp hsize
  have hdouble : h.bucketsSize * 2 = 2 ^ (j + 1) := by rw [hj, Nat.pow_succ]
  have hle : h.bucketsSize * 2 ≤ 2 ^ 31 := by
    rw [hdouble]
    exact Nat.pow_le_pow_right (by norm_num) (by omega)
  rw [mod_eq_of_lt (by omega)]
  obtain ⟨h', rows', hresize, hs', hsize', hperm, hdata, hcount⟩ :=
    hashResize_ok hh.sorted (by omega : 0 < h.bucketsSize * 2) hle
  have hkey : ∀ a, h'.keyOf fs a = h.keyOf fs a := fun a => by rw [Hash.keyOf, Hash.keyOf, hdata]
  refine ⟨h', rows', hresize, ⟨hs', ⟨j + 1, hsize'.trans hdouble⟩, ?_, ?_, ?_, ?_⟩, hsize', hcount⟩
  · rw [hcount, hsize', hperm.length_eq, hh.count]
  · rw [hcount]
    exact hh.count_lt
  · intro a ha
    rw [hsize'] at ha
    rw [hkey, hdata]
    exact hh.present a (hperm.subset ha)
  · intro k hk
    refine hh.absent k (fun a ha => ?_)
    rw [← hkey]
    exact hk a (by rw [hsize']; exact hperm.symm.subset ha)

theorem hashInsert_new [DecidableEq K] (hh : h.Holds fs f rows) (null : D) {data : D} {ok : Bool}
    (hnew : f (fs.getKey data) = none) (hroom : h.itemCount + 1 < 2 ^ 32)
    (hgrow : ok = true → h.itemCount + 1 < h.bucketsSize ∨ h.bucketsSize < 2 ^ 31) :
    ∃ h' rows', hashInsert fs null h data ok = .ok (h', null) ∧
      h'.Holds fs (update f (fs.getKey data) (some data)) rows' ∧ h'.itemCount = h.itemCount + 1 ∧
      (ok = true → h.itemCount < h.bucketsSize → h'.itemCount < h'.bucketsSize) := by
  rcases hh.find (fs.getKey data) with ⟨a, ys, zs, -, -, -, hf, -⟩ | ⟨-, hno, ys, zs, hrow, hys, hzs, hfind⟩
  · rw [hnew] at hf
    cases hf
  obtain ⟨rows₁, hh₁⟩ := addElement_holds hh hrow hys hzs hno hroom
  have hmod : (h.itemCount + 1) % 2 ^ 32 = h.itemCount + 1 := mod_eq_of_lt hroom
  by_cases hfull : h.bucketsSize ≤ h.itemCount + 1
  · cases ok with
    | false =>
      refine ⟨_, rows₁, ?_, hh₁, hmod, fun hok => by cases hok⟩
      simp only [hashInsert, bucketIndex_ok hh.sorted, ok_bind, hfind, addElement, allocElement, hmod, hfull, if_true,
        hashResize, Bool.false_eq_true, if_false]
    | true =>
      have hsize : h.bucketsSize < 2 ^ 31 := by
        rcases hgrow rfl with hlt | hlt
        · omega
        · exact hlt
      obtain ⟨h', rows', hresize, hh', hsize', hcount'⟩ := hh₁.resize hsize
      refine ⟨h', rows', ?_, hh', hcount'.trans hmod, fun _ hlt => ?_⟩
      · simp only [addElement, allocElement, hmod] at hresize
        simp only [hashInsert, bucketIndex_ok hh.sorted, ok_bind, hfind, addElement, allocElement, hmod, hfull, if_true,
          hresize]
      · have hsize'' : h'.bucketsSize = h.bucketsSize * 2 := hsize'
        have hcount'' : h'.itemCount = h.itemCount + 1 := hcount'.trans hmod
        omega
  · refine ⟨_, rows₁, ?_, hh₁, hmod, fun _ _ => ?_⟩
    · simp only [hashInsert, bucketIndex_ok hh.sorted, ok_bind, hfind, addElement, allocElement, hmod, hfull, if_false]
    · show (h.itemCount + 1) % 2 ^ 32 < h.bucketsSize
      omega

theorem hashInsert_old [DecidableEq K] (hh : h.Holds fs f rows) (null : D) {data old : D} (ok : Bool)
    (hf : f (fs.getKey data) = some old) :
    ∃ h' rows', hashInsert fs null h data ok = .ok (h', old) ∧
      h'.Holds fs (update f (fs.getKey data) (some data)) rows' := by
  rcases hh.find (fs.getKey data) with ⟨a, ys, zs, -, ha, hk, hf', hfind⟩ | ⟨hf', -⟩
  · have hold : h.data a = old := some_unique hf' hf
    have hkey : ∀ b, Hash.keyOf fs { h with
        data := update h.data a data
        hashVal := update h.hashVal a (fs.hashKey (fs.getKey data)).toNat } b = h.keyOf fs b := by
      intro b
      by_cases hba : b = a
      · subst hba
        simp only [Hash.keyOf, update_self]
        exact hk.symm
      · simp only [Hash.keyOf, update_of_ne hba]
    have hval : ∀ b, update h.hashVal a (fs.hashKey (fs.getKey data)).toNat b = h.hashVal b := by
      intro b
      by_cases hba : b = a
      · subst hba
        rw [update_self, hh.sorted.hash b ha, hk]
      · rw [update_of_ne hba]
    refine ⟨{ h with
      data := update h.data a data
      hashVal := update h.hashVal a (fs.hashKey (fs.getKey data)).toNat }, rows, ?_,
      hh.sorted.congr rfl rfl (le_refl _) (fun b _ => hkey b) (fun b _ => hval b), hh.power, hh.count,
      hh.count_lt, fun b hb => ?_, fun k hkb => ?_⟩
    · simp only [hashInsert, bucketIndex_ok hh.sorted, ok_bind, hfind, hold]
    · rw [hkey]
      by_cases hba : b = a
      · subst hba
        rw [hk, update_self]
        simp only [update_self]
      · have hkb : h.keyOf fs b ≠ fs.getKey data := fun he => hba (hh.sorted.once hb ha (he.trans hk.symm))
        simp only [update_of_ne hba, update_of_ne hkb]
        exact hh.present b hb
    · have hkd : k ≠ fs.getKey data := by
        rintro rfl
        exact hkb a ha (by rw [hkey]; exact hk)
      rw [update_of_ne hkd]
      refine hh.absent k (fun b hb => ?_)
      rw [← hkey]
      exact hkb b hb
  · rw [hf] at hf'
    cases hf'

theorem hashRemove_ok [DecidableEq K] (hh : h.Holds fs f rows) (null : D) (key : K) :
    ∃ h' rows', hashRemove fs null h key = .ok (h', (f key).getD null) ∧
      h'.Holds fs (update f key none) rows' := by
  rcases hh.find key with ⟨a, ys, zs, hrow, ha, rfl, hf, hfind⟩ | ⟨hf, -, ys, zs, -, -, -, hfind⟩
  · have hs := hh.sorted
    have hi : (fs.hashKey (h.keyOf fs a)).toNat % h.bucketsSize < h.bucketsSize := mod_lt _ hs.size.1
    have hperm := elements_unlink_perm hi hrow
    have hnodup := hperm.nodup_iff.mp hs.table.elements_nodup
    have hsub : ∀ b ∈ elements (update rows ((fs.hashKey (h.keyOf fs a)).toNat % h.bucketsSize) (ys ++ zs))
        h.bucketsSize, b ∈ elements rows h.bucketsSize := fun b hb => hperm.mem_iff.mpr (mem_cons_of_mem _ hb)
    have hlen := hperm.length_eq
    rw [length_cons, ← hh.count] at hlen
    have hlt := hh.count_lt
    have hmod : (h.itemCount + (2 ^ 32 - 1)) % 2 ^ 32 = h.itemCount - 1 := by omega
    refine ⟨{ h with
      links := h.links.unlink ((fs.hashKey (h.keyOf fs a)).toNat % h.bucketsSize) ys.getLast? a
      itemCount := (h.itemCount + (2 ^ 32 - 1)) % 2 ^ 32 }, _, ?_,
      ⟨hs.table.unlink hi hrow rfl, fun j hj => ?_, fun b hb => hs.live b (hsub b hb),
        fun b hb => hs.hash b (hsub b hb), hs.size⟩, hh.power, ?_, ?_, fun b hb => ?_, fun k hk => ?_⟩
    · simp only [hashRemove, bucketIndex_ok hs, ok_bind, hfind, hf, getD_some]
    · by_cases hji : j = (fs.hashKey (h.keyOf fs a)).toNat % h.bucketsSize
      · subst hji
        rw [update_self]
        have hpair := hs.sorted _ hj
        rw [hrow] at hpair
        exact hpair.sublist ((sublist_cons_self a zs).append_left ys)
      · rw [update_of_ne hji]
        exact hs.sorted j hj
    · simp only
      omega
    · exact mod_lt _ (by norm_num)
    · have hkey : h.keyOf fs b ≠ h.keyOf fs a := by
        intro he
        rw [hs.once (hsub b hb) ha he] at hb
        exact (nodup_cons.mp hnodup).1 hb
      exact (update_of_ne hkey _ _).trans (hh.present b (hsub b hb))
    · by_cases hka : k = h.keyOf fs a
      · subst hka
        rw [update_self]
      · rw [update_of_ne hka]
        refine hh.absent k (fun b hb => ?_)
        rcases mem_cons.mp (hperm.mem_iff.mp hb) with rfl | hb
        · exact fun he => hka he.symm
        · exact hk b hb
  · refine ⟨h, rows, ?_, ?_⟩
    · simp only [hashRemove, bucketIndex_ok hh.sorted, ok_bind, hfind, hf, getD_none]
    · rwa [← hf, update_eq_self]

/-! ## Every run -/

/-- `ok` says whether a `malloc` in `hash_resize` succeeds, should the insertion come to it. -/
inductive HashOp (K D : Type)
  | insert (data : D) (ok : Bool)
  | remove (key : K)
  | get (key : K)

def hashStep (fs : HashFuncs K D) (null : D) (h : Hash D) : HashOp K D → Except Fault (Hash D × D)
  | .insert data ok => hashInsert fs null h data ok
  | .remove key => hashRemove fs null h key
  | .get key => do
    let data ← hashGet fs null h key
    .ok (h, data)

/-- The finite map: each call returns what was stored for the key, or the null pointer. -/
def finiteStep [DecidableEq K] (fs : HashFuncs K D) (null : D) (f : K → Option D) :
    HashOp K D → (K → Option D) × D
  | .insert data _ => (update f (fs.getKey data) (some data), (f (fs.getKey data)).getD null)
  | .remove key => (update f key none, (f key).getD null)
  | .get key => (f, (f key).getD null)

/-- What holds of a table with the contents `f`: chains strictly sorted and in their buckets, the
size, and the elements `hash_next` goes through from the null pointer on. -/
structure Hash.Represents (fs : HashFuncs K D) (h : Hash D) (f : K → Option D) : Prop where
  chains : ∃ rows : ℕ → List ℕ, ∀ i < h.bucketsSize, Chain h.links.next some none (h.links.buckets i) (rows i) ∧
    (rows i).Pairwise (h.before fs) ∧ ∀ a ∈ rows i, h.hashVal a % h.bucketsSize = i
  size : hashSize h = {k | f k ≠ none}.ncard
  next : ∃ ites, Chain (fun a => hashNext h (some a)) some none (hashNext h none) ites ∧ ites.Nodup ∧
    ∀ k d, (∃ a ∈ ites, h.keyOf fs a = k ∧ h.data a = d) ↔ f k = some d

def Hash.has (fs : HashFuncs K D) (h : Hash D) (key : K) : Prop :=
  ∃ prev e, findElement fs h ((fs.hashKey key).toNat % h.bucketsSize) key = .ok (prev, some e)

/-- Inserting a new key neither takes the count past 32 bits nor doubles 2^31 buckets. -/
def Hash.Room (fs : HashFuncs K D) (h : Hash D) : HashOp K D → Prop
  | .insert data ok => h.has fs (fs.getKey data) ∨ (h.itemCount + 1 < 2 ^ 32 ∧
      (ok = true → h.itemCount + 1 < h.bucketsSize ∨ h.bucketsSize < 2 ^ 31))
  | _ => True

theorem Hash.Holds.entries (hh : h.Holds fs f rows) (k : K) (d : D) :
    (∃ a ∈ elements rows h.bucketsSize, h.keyOf fs a = k ∧ h.data a = d) ↔ f k = some d := by
  constructor
  · rintro ⟨a, ha, rfl, rfl⟩
    exact hh.present a ha
  · intro hf
    by_contra hno
    have hnone := hh.absent k (fun a ha hk => hno ⟨a, ha, hk, ?_⟩)
    · rw [hf] at hnone
      cases hnone
    · have hp := hh.present a ha
      rw [hk, hf] at hp
      exact (some.inj hp).symm

theorem Hash.Holds.represents (hh : h.Holds fs f rows) : h.Represents fs f := by
  classical
  have hs := hh.sorted
  refine ⟨⟨rows, fun i hi => ⟨hs.table.chain i hi, hs.sorted i hi, hs.table.place i hi⟩⟩, ?_,
    elements rows h.bucketsSize, hs.table.advance_all, hs.table.elements_nodup, hh.entries⟩
  have hkeys : ((elements rows h.bucketsSize).map (h.keyOf fs)).Nodup :=
    hs.table.elements_nodup.map_on (fun a ha b hb => hs.once ha hb)
  have hset : {k | f k ≠ none} = ↑((elements rows h.bucketsSize).map (h.keyOf fs)).toFinset := by
    ext k
    rw [coe_toFinset]
    show f k ≠ none ↔ k ∈ (elements rows h.bucketsSize).map (h.keyOf fs)
    rw [mem_map, ne_none_iff_exists']
    constructor
    · rintro ⟨d, hd⟩
      obtain ⟨a, ha, hk, -⟩ := (hh.entries k d).mpr hd
      exact ⟨a, ha, hk⟩
    · rintro ⟨a, ha, rfl⟩
      exact ⟨h.data a, hh.present a ha⟩
  rw [hset, Set.ncard_coe_finset, toFinset_card_of_nodup hkeys, length_map]
  exact hh.count

theorem hashStep_ok [DecidableEq K] (null : D) (h : Hash D) (f : K → Option D) (op : HashOp K D)
    (hh : ∃ rows, h.Holds fs f rows) (hroom : h.Room fs op) :
    ∃ h', hashStep fs null h op = .ok (h', (finiteStep fs null f op).2) ∧
      ∃ rows, h'.Holds fs (finiteStep fs null f op).1 rows := by
  obtain ⟨rows, hh⟩ := hh
  cases op with
  | insert data ok =>
    cases hf : f (fs.getKey data) with
    | some old =>
      obtain ⟨h', rows', hins, hh'⟩ := hashInsert_old hh null ok hf
      exact ⟨h', by simp only [hashStep, hins, finiteStep, hf, getD_some], rows', hh'⟩
    | none =>
      have hnew : h.itemCount + 1 < 2 ^ 32 ∧
          (ok = true → h.itemCount + 1 < h.bucketsSize ∨ h.bucketsSize < 2 ^ 31) := by
        rcases hroom with ⟨prev, e, hhas⟩ | hroom
        · rcases hh.find (fs.getKey data) with ⟨a, ys, zs, -, -, -, hf', -⟩ | ⟨-, -, ys, zs, -, -, -, hfind⟩
          · rw [hf] at hf'
            cases hf'
          · rw [hfind] at hhas
            cases hhas
        · exact hroom
      obtain ⟨h', rows', hins, hh', -⟩ := hashInsert_new hh null hf hnew.1 hnew.2
      exact ⟨h', by simp only [hashStep, hins, finiteStep, hf, getD_none], rows', hh'⟩
  | remove key =>
    obtain ⟨h', rows', hrem, hh'⟩ := hashRemove_ok hh null key
    exact ⟨h', hrem, rows', hh'⟩
  | get key =>
    refine ⟨h, ?_, rows, hh⟩
    simp only [hashStep, hashGet_ok hh, ok_bind, finiteStep]

theorem hashCreate_holds {null : D} {h₀ : Hash D} (hcreate : hashCreate fs null = .ok h₀) :
    h₀.Holds fs (fun _ => none) (fun _ => []) ∧ h₀.bucketsSize = 128 := by
  obtain rfl : _ = h₀ := Except.ok.inj hcreate
  have hnone : ∀ a, a ∉ elements (fun _ => []) 128 := by
    intro a ha
    rw [elements_empty] at ha
    exact absurd ha (by simp)
  refine ⟨⟨⟨rows_empty, fun _ _ => List.Pairwise.nil, fun a ha => absurd ha (hnone a), fun a ha => absurd ha (hnone a),
    by norm_num, by norm_num⟩, ⟨7, rfl⟩, ?_, by norm_num, fun a ha => absurd ha (hnone a), fun _ _ => rfl⟩, rfl⟩
  rw [elements_empty]
  rfl

/-- From `hash_create` on, in every run that keeps to the room of the 32-bit counters: no assertion
fails, every call returns what the finite map returns, and the table represents it. -/
theorem hash_refines_finite_map [DecidableEq K] (fs : HashFuncs K D) (null : D) {h₀ : Hash D}
    (hcreate : hashCreate fs null = .ok h₀) (ops : List (HashOp K D))
    (hroom : Along (silent (hashStep fs null)) (Hash.Room fs) h₀ ops) :
    ∃ h, exec (hashStep fs null) h₀ ops = .ok (h, (specExec (finiteStep fs null) (fun _ => none) ops).2) ∧
      h.Represents fs (specExec (finiteStep fs null) (fun _ => none) ops).1 := by
  obtain ⟨h, hexec, rows, hh⟩ := exec_simulates_along (hashStep_ok null) ops h₀ (fun _ => none)
    ⟨_, (hashCreate_holds hcreate).1⟩ hroom
  exact ⟨h, hexec, hh.represents⟩

/-! ### Numbers as data and keys -/

def numberFuncs : HashFuncs ℕ ℕ where
  getKey := id
  hashKey k := UInt32.ofNat k
  cmpKey a b := (a : ℤ) - b
  cmp_eq a b := by omega
  cmp_swap a b := by omega
  cmp_trans a b c := by omega

theorem hash_refines_finite_map_collision :
    ∃ h₀ h, hashCreate numberFuncs 0 = .ok h₀ ∧
      exec (hashStep numberFuncs 0) h₀ [.insert 130 true, .insert 2 true, .remove 130, .get 2] =
        .ok (h, [0, 0, 130, 2]) := by
  obtain ⟨h₀, hcreate⟩ : ∃ h₀, hashCreate numberFuncs 0 = .ok h₀ := ⟨_, rfl⟩
  have h₀eq : _ = h₀ := Except.ok.inj hcreate
  have hroom : Along (silent (hashStep numberFuncs 0)) (Hash.Room numberFuncs) h₀
      [.insert 130 true, .insert 2 true, .remove 130, .get 2] := by
    subst h₀eq
    refine .cons (.inr ⟨by decide, fun _ => .inr (by decide)⟩) rfl
      (.cons (.inr ⟨by decide, fun _ => .inr (by decide)⟩) rfl (.cons trivial rfl (.cons trivial rfl trivial)))
  obtain ⟨h, hexec, -⟩ := hash_refines_finite_map numberFuncs 0 hcreate _ hroom
  exact ⟨h₀, h, hcreate, hexec⟩

theorem hashInsert_overflow [DecidableEq K] (hh : h.Holds fs f rows) (null : D) {data : D}
    (hnew : f (fs.getKey data) = none) (hcount : h.itemCount + 1 = 2 ^ 31) (hsize : h.bucketsSize = 2 ^ 31) :
    hashInsert fs null h data true = .error .divisionByZero := by
  rcases hh.find (fs.getKey data) with ⟨a, ys, zs, -, -, -, hf, -⟩ | ⟨-, hno, ys, zs, hrow, hys, hzs, hfind⟩
  · rw [hnew] at hf
    cases hf
  obtain ⟨rows₁, hh₁⟩ := addElement_holds hh hrow hys hzs hno (by rw [hcount]; norm_num)
  have hmod : (h.itemCount + 1) % 2 ^ 32 = 2 ^ 31 := by omega
  have hzero : h.bucketsSize * 2 % 2 ^ 32 = 0 := by omega
  have hfull : h.bucketsSize ≤ 2 ^ 31 := le_of_eq hsize
  -- the table is not empty, so the rebuilding meets an element
  have hsome : ∃ j, 0 ≤ j ∧ j < 0 + h.bucketsSize ∧ (addElement h ((fs.hashKey (fs.getKey data)).toNat % h.bucketsSize)
      ys.getLast? data (fs.hashKey (fs.getKey data)).toNat).links.buckets j ≠ none := by
    have hlen : 0 < (elements rows₁ h.bucketsSize).length := by
      have hc : (h.itemCount + 1) % 2 ^ 32 = (elements rows₁ h.bucketsSize).length := hh₁.count
      omega
    obtain ⟨a, ha⟩ := exists_mem_of_length_pos hlen
    obtain ⟨j, hj, haj⟩ := mem_elements.mp ha
    refine ⟨j, Nat.zero_le j, by omega, fun hnone => ?_⟩
    have hnil := ((hh₁.sorted.table.chain j hj).eq_nil_iff (by simp)).mp hnone
    rw [hnil] at haj
    simp at haj
  simp only [hashInsert, bucketIndex_ok hh.sorted, ok_bind, hfind]
  rw [if_pos (by show h.bucketsSize ≤ (h.itemCount + 1) % 2 ^ 32; omega)]
  have hresize : hashResize fs (addElement h ((fs.hashKey (fs.getKey data)).toNat % h.bucketsSize) ys.getLast? data
      (fs.hashKey (fs.getKey data)).toNat) (h.bucketsSize * 2 % 2 ^ 32) true = .error .divisionByZero := by
    rw [hashResize, if_pos rfl, hzero]
    exact drainTable_error (fun a => rfl) _ hsome
  show (do let h ← hashResize fs _ (h.bucketsSize * 2 % 2 ^ 32) true; .ok (h, null)) = _
  rw [hresize]
  rfl

def insertFrom (k : ℕ) : ℕ → List (HashOp ℕ ℕ)
  | 0 => []
  | n + 1 => .insert k true :: insertFrom (k + 1) n

theorem insertFrom_fault (n : ℕ) : ∀ (k : ℕ) (h : Hash ℕ) (f : ℕ → Option ℕ) (rows : ℕ → List ℕ),
    h.Holds numberFuncs f rows → h.itemCount = k → k < h.bucketsSize → (∀ j, k ≤ j → f j = none) →
    k < 2 ^ 31 → 2 ^ 31 ≤ k + n →
    exec (hashStep numberFuncs 0) h (insertFrom k n) = .error .divisionByZero := by
  induction n with
  | zero =>
    intro k h f rows _ _ _ _ h1 h2
    omega
  | succ n ih =>
    intro k h f rows hh hcount hlt hnone h1 h2
    have hnew : f (numberFuncs.getKey k) = none := hnone k (le_refl k)
    have hle := hh.sorted.size.2
    rw [insertFrom, exec, hashStep]
    by_cases hlast : k + 1 = 2 ^ 31
    · rw [hashInsert_overflow hh 0 hnew (by omega) (by omega)]
    · obtain ⟨h', rows', hins, hh', hcount', hsize'⟩ := @hashInsert_new _ _ _ _ _ _ _ hh 0 k true hnew (by omega)
        (fun _ => by omega)
      rw [hins]
      simp only
      rw [ih (k + 1) h' _ rows' hh' (by omega) (by have := hsize' rfl (by omega); omega) ?_ (by omega) (by omega)]
      intro j hj
      have hjk : j ≠ numberFuncs.getKey k := by
        intro he
        have : j = k := he
        omega
      rw [update_of_ne hjk]
      exact hnone j (by omega)

/-- Inserting the numbers below 2^31 ends in a division by zero. -/
theorem hash_full_faults : ¬ ∀ h₀, hashCreate numberFuncs 0 = .ok h₀ → ∀ ops, ∃ h,
    exec (hashStep numberFuncs 0) h₀ ops = .ok (h, (specExec (finiteStep numberFuncs 0) (fun _ => none) ops).2) ∧
      h.Represents numberFuncs (specExec (finiteStep numberFuncs 0) (fun _ => none) ops).1 := by
  intro hall
  obtain ⟨h₀, hcreate⟩ : ∃ h₀, hashCreate numberFuncs 0 = .ok h₀ := ⟨_, rfl⟩
  obtain ⟨hh, hsize⟩ := hashCreate_holds hcreate
  have hcount : h₀.itemCount = 0 := by
    rw [hh.count, elements_empty]
    rfl
  obtain ⟨h, hexec, -⟩ := hall h₀ hcreate (insertFrom 0 (2 ^ 31))
  rw [insertFrom_fault (2 ^ 31) 0 h₀ _ _ hh hcount (by rw [hsize]; norm_num) (fun _ _ => rfl) (by norm_num)
    (by norm_num)] at hexec
  cases hexec

end CServer.Framework
