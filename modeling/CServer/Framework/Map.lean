import CServer.Lib.Exec
import CServer.Lib.Buckets

/-! # `framework/map.c`: the pointer map

A chained hash table from 64-bit integers (`ip`) or C strings (`sp`) to pointers, where the null
pointer means absent. The table starts without buckets and grows before an insertion that would
make it hold more elements than buckets. An element is an address; each field of
`struct map_element` is a function of the address, and `fresh` is the next address the allocator
returns. Counters and sizes are unbounded here: 2^64 elements do not fit into the address space.
-/
namespace CServer.Framework
open CServer.Lib Function List Nat

/-! ## The code -/

structure AgMap (K : Type) where
  links : BucketLinks
  hash : ℕ → ℕ
  key : ℕ → K
  value : ℕ → ℕ
  fresh : ℕ
  itemCount : ℕ
  bucketsSize : ℕ

variable {K : Type}

/-- `_agMap_new`. What unused memory holds is `k`. -/
def agMapNew (k : K) : AgMap K := ⟨⟨fun _ => none, fun _ => none⟩, fun _ => 0, fun _ => k, fun _ => 0, 0, 0, 0⟩

def agMapSize (map : AgMap K) : ℕ := map.itemCount

def insertElement (map : AgMap K) (element : ℕ) : Except Fault (AgMap K) := do
  assert (decide (0 < map.bucketsSize))
  let pos := map.hash element % map.bucketsSize
  .ok { map with links := map.links.link pos none element, itemCount := map.itemCount + 1 }

def growSize (s : ℕ) : ℕ → ℕ → Except Fault ℕ
  | 0, _ => .error .diverges
  | fuel + 1, ns => if ns < s then growSize s fuel (ns * 2) else .ok ns

/-- The body of the inner loop of `_resize`, once `ite` has moved on. -/
def reinsert (map : AgMap K) (cur : ℕ) : Except Fault (AgMap K) :=
  insertElement { map with links := { map.links with next := update map.links.next cur none } } cur

def resize (map : AgMap K) (s : ℕ) : Except Fault (AgMap K) :=
  if s ≤ map.bucketsSize then .ok map
  else do
    let os := map.bucketsSize
    let ns ← growSize s (s + 1) (if os = 0 then 32 else os)
    drainTable (fun map => map.links.next) reinsert (map.itemCount + 1) map.links.buckets os 0
      { map with links := { map.links with buckets := fun _ => none }, itemCount := 0, bucketsSize := ns }

def newElement (map : AgMap K) (hash : ℕ) (key : K) (p : ℕ) : AgMap K :=
  { map with
    fresh := map.fresh + 1
    links := { map.links with next := update map.links.next map.fresh none }
    hash := update map.hash map.fresh hash
    key := update map.key map.fresh key
    value := update map.value map.fresh p }

section Keys

variable [DecidableEq K] (hashOf : K → ℕ)

def find (map : AgMap K) (key : K) : Except Fault (Option ℕ × Option ℕ) :=
  if map.itemCount = 0 ∨ map.bucketsSize = 0 then .ok (none, none)
  else do
    let hash := hashOf key
    let pos := hash % map.bucketsSize
    let (parent, ite) ← seek map.links.next
      (fun a => if map.hash a ≠ hash ∨ map.key a ≠ key then .pass else .hit)
      (map.itemCount + 1) none (map.links.buckets pos)
    .ok (if ite = none then none else parent, ite)

def agMapGet (map : AgMap K) (key : K) : Except Fault ℕ := do
  let (_, cur) ← find hashOf map key
  match cur with
  | some cur => .ok (map.value cur)
  | none => .ok 0

def agMapSet (map : AgMap K) (key : K) (p : ℕ) : Except Fault (AgMap K × ℕ) := do
  let (parent, cur) ← find hashOf map key
  match cur with
  | some cur =>
    assert (decide (0 < map.bucketsSize))
    let o := map.value cur
    if p = 0 then
      .ok ({ map with
        links := map.links.unlink (hashOf key % map.bucketsSize) parent cur
        itemCount := map.itemCount - 1 }, o)
    else .ok ({ map with value := update map.value cur p }, o)
  | none =>
    if p = 0 then .ok (map, 0)
    else do
      let map ← resize map (map.itemCount + 1)
      let element := map.fresh
      let map ← insertElement (newElement map (hashOf key) key p) element
      .ok (map, 0)

end Keys

/-- `_agMap_ip_foreach` and `_agMap_sp_foreach`: the calls of `func`, in order. -/
def chainCalls (map : AgMap K) : ℕ → Option ℕ → Except Fault (List (K × ℕ))
  | 0, _ => .error .diverges
  | _ + 1, none => .ok []
  | fuel + 1, some ite => do
    let rest ← chainCalls map fuel (map.links.next ite)
    .ok ((map.key ite, map.value ite) :: rest)

def foreachFrom (map : AgMap K) : ℕ → ℕ → Except Fault (List (K × ℕ))
  | 0, _ => .ok []
  | n + 1, i => do
    let calls ← chainCalls map (map.itemCount + 1) (map.links.buckets i)
    let rest ← foreachFrom map n (i + 1)
    .ok (calls ++ rest)

def agMapForeach (map : AgMap K) : Except Fault (List (K × ℕ)) := foreachFrom map map.bucketsSize 0

def agMapNext (map : AgMap K) (ite : Option ℕ) : Option ℕ :=
  map.links.advance map.bucketsSize (fun a => map.hash a % map.bucketsSize) ite

/-! ### Integer keys and string keys -/

def ipHash (key : UInt64) : ℕ := key.toNat

def agMapIpGet (map : AgMap UInt64) (key : UInt64) : Except Fault ℕ := agMapGet ipHash map key

def agMapIpSet (map : AgMap UInt64) (key : UInt64) (p : ℕ) : Except Fault (AgMap UInt64 × ℕ) :=
  agMapSet ipHash map key p

/-- The bytes of a C string before its terminating zero. -/
abbrev CString := { bs : List UInt8 // (0 : UInt8) ∉ bs }

def charToSize (c : UInt8) : ℕ := if c.toNat < 2 ^ 7 then c.toNat else 2 ^ 64 - 2 ^ 8 + c.toNat

def calcHashLoop (name : List UInt8) (step : ℕ) : ℕ → ℕ → ℕ → ℕ
  | 0, _, h => h
  | fuel + 1, i, h =>
    if step ≤ i then
      calcHashLoop name step fuel (i - step)
        (h ^^^ ((h * 2 ^ 5 % 2 ^ 64 + h / 2 ^ 2 + charToSize (name.getD (i - 1) 0)) % 2 ^ 64))
    else h

/-- `_s_calc_hash`; the step is at least 1, so the loop runs at most `len` times. -/
def sCalcHash (name : CString) : ℕ :=
  let len := name.val.length
  calcHashLoop name.val (len / 2 ^ 5 + 1) len len len

def agMapSpGet (map : AgMap CString) (key : CString) : Except Fault ℕ := agMapGet sCalcHash map key

def agMapSpSet (map : AgMap CString) (key : CString) (p : ℕ) : Except Fault (AgMap CString × ℕ) :=
  agMapSet sCalcHash map key p

/-! ## The invariant -/

/-- The elements `es` of the map, in the buckets their hashes lead to, and no key twice. -/
structure AgMap.Ok (hashOf : K → ℕ) (map : AgMap K) (rows : ℕ → List ℕ) (es : List ℕ) : Prop where
  table : map.links.Rows map.bucketsSize (fun a => map.hash a % map.bucketsSize) rows
  all : es = elements rows map.bucketsSize
  count : map.itemCount = es.length
  fits : map.itemCount ≤ map.bucketsSize
  live : ∀ a ∈ es, a < map.fresh
  hash : ∀ a ∈ es, map.hash a = hashOf (map.key a)
  once : ∀ a ∈ es, ∀ b ∈ es, map.key a = map.key b → a = b
  nonzero : ∀ a ∈ es, map.value a ≠ 0

/-- The map holds `f`; a key with value 0 is absent. -/
structure AgMap.Holds (map : AgMap K) (es : List ℕ) (f : K → ℕ) : Prop where
  present : ∀ a ∈ es, f (map.key a) = map.value a
  absent : ∀ k, (∀ a ∈ es, map.key a ≠ k) → f k = 0

variable {hashOf : K → ℕ} {map : AgMap K} {rows : ℕ → List ℕ} {es : List ℕ} {f : K → ℕ}

theorem agMapNew_ok (k : K) : (agMapNew k).Ok hashOf (fun _ => []) [] := by
  refine ⟨rows_empty, rfl, rfl, le_refl _, ?_, ?_, ?_, ?_⟩
  all_goals exact fun a ha => absurd ha (by simp)

theorem AgMap.Ok.nodup (h : map.Ok hashOf rows es) : es.Nodup := by
  rw [h.all]
  exact h.table.elements_nodup

theorem AgMap.Ok.row_length (h : map.Ok hashOf rows es) {i : ℕ} (hi : i < map.bucketsSize) :
    (rows i).length < map.itemCount + 1 := by
  have hle := elements_length_le rows hi
  rw [h.count, h.all]
  omega

theorem AgMap.Ok.size_pos (h : map.Ok hashOf rows es) {a : ℕ} (ha : a ∈ es) : 0 < map.bucketsSize := by
  rw [h.all] at ha
  obtain ⟨i, hi, -⟩ := mem_elements.mp ha
  omega

theorem AgMap.Ok.mem_row (h : map.Ok hashOf rows es) {a : ℕ} (ha : a ∈ es) :
    a ∈ rows (hashOf (map.key a) % map.bucketsSize) := by
  have hpos : map.hash a % map.bucketsSize < map.bucketsSize := mod_lt _ (h.size_pos ha)
  rw [← h.hash a ha]
  rw [h.all] at ha
  exact (h.table.mem_iff hpos).mp ha

theorem AgMap.Ok.row_mem (h : map.Ok hashOf rows es) {i a : ℕ} (hi : i < map.bucketsSize) (ha : a ∈ rows i) :
    a ∈ es := by
  rw [h.all]
  exact mem_elements.mpr ⟨i, hi, ha⟩

theorem AgMap.Holds.congr {map' : AgMap K} {es' : List ℕ} (hf : map.Holds es f) (hes : es'.Perm es)
    (hkey : map'.key = map.key) (hvalue : map'.value = map.value) : map'.Holds es' f := by
  refine ⟨fun a ha => ?_, fun k hk => hf.absent k (fun a ha => ?_)⟩
  · rw [hkey, hvalue]
    exact hf.present a (hes.subset ha)
  · rw [← hkey]
    exact hk a (hes.symm.subset ha)

/-! ## Growth -/

theorem growSize_ok (s : ℕ) : ∀ fuel ns, 0 < ns → s ≤ ns + fuel →
    ∃ n, growSize s (fuel + 1) ns = .ok n ∧ s ≤ n ∧ 0 < n := by
  intro fuel
  induction fuel with
  | zero =>
    intro ns hpos hle
    exact ⟨ns, by rw [growSize, if_neg (by omega)], by omega, hpos⟩
  | succ fuel ih =>
    intro ns hpos hle
    rw [growSize]
    by_cases hlt : ns < s
    · rw [if_pos hlt]
      exact ih (ns * 2) (by omega) (by omega)
    · rw [if_neg hlt]
      exact ⟨ns, rfl, by omega, hpos⟩

/-- While the buckets are rebuilt: `rest` are the elements of `es` not yet inserted. -/
structure Rebuilding (map₀ : AgMap K) (ns : ℕ) (es : List ℕ) (rest : List ℕ) (map : AgMap K) : Prop where
  size : map.bucketsSize = ns
  fields : map.hash = map₀.hash ∧ map.key = map₀.key ∧ map.value = map₀.value ∧ map.fresh = map₀.fresh
  rows : ∃ rows, map.links.Rows ns (fun a => map.hash a % ns) rows ∧
    map.itemCount = (elements rows ns).length ∧ (elements rows ns ++ rest).Perm es

theorem reinsert_ok {map₀ : AgMap K} {ns : ℕ} (hns : 0 < ns) (hes : es.Nodup) (map : AgMap K) (cur : ℕ)
    (rest : List ℕ) (h : Rebuilding map₀ ns es (cur :: rest) map) :
    ∃ map', reinsert map cur = .ok map' ∧ Rebuilding map₀ ns es rest map' ∧
      ∀ a ∈ rest, map'.links.next a = map.links.next a := by
  obtain ⟨hsize, hfields, rows, hrows, hcount, hperm⟩ := h
  have hnodup := hperm.nodup_iff.mpr hes
  have hcur : cur ∉ elements rows ns := by
    intro hmem
    exact (nodup_append.mp hnodup).2.2 cur hmem cur (by simp) rfl
  have hrest : ∀ a ∈ rest, a ≠ cur := by
    rintro a ha rfl
    exact (nodup_cons.mp (nodup_append.mp hnodup).2.1).1 ha
  have hpos : map.hash cur % ns < ns := mod_lt _ hns
  have hlink := (hrows.congr_next hcur none).link none [] _ hpos rfl rfl hcur rfl
  have hgrown : (elements (update rows (map.hash cur % ns) ([] ++ cur :: rows (map.hash cur % ns))) ns).Perm
      (cur :: elements rows ns) := elements_update_perm hpos (List.Perm.refl _)
  have hre : reinsert map cur = .ok { map with
      links := BucketLinks.link ⟨update map.links.next cur none, map.links.buckets⟩ (map.hash cur % ns) none cur
      itemCount := map.itemCount + 1 } := by
    simp only [reinsert, insertElement, hsize, hns, decide_true, assert_true, ok_bind]
  refine ⟨_, hre, ⟨hsize, hfields, _, hlink, ?_, ?_⟩, ?_⟩
  · rw [hgrown.length_eq, length_cons, ← hcount]
  · exact ((hgrown.append_right rest).trans perm_middle.symm).trans hperm
  · intro a ha
    simp only [BucketLinks.link, update_of_ne (hrest a ha)]

/-- A map that is too small is rebuilt from the elements of its rows. -/
theorem rebuild_ok (htable : map.links.Rows map.bucketsSize (fun a => map.hash a % map.bucketsSize) rows)
    (hlen : ∀ j < map.bucketsSize, (rows j).length < map.itemCount + 1)
    (hfits : ¬ map.itemCount + 1 ≤ map.bucketsSize) :
    ∃ ns map', growSize (map.itemCount + 1) (map.itemCount + 2)
        (if map.bucketsSize = 0 then 32 else map.bucketsSize) = .ok ns ∧ map.itemCount + 1 ≤ ns ∧
      resize map (map.itemCount + 1) = .ok map' ∧ Rebuilding map ns (elements rows map.bucketsSize) [] map' := by
  obtain ⟨ns, hgrow, hle, hpos⟩ := growSize_ok (map.itemCount + 1) (map.itemCount + 1)
    (if map.bucketsSize = 0 then 32 else map.bucketsSize) (by split <;> omega) (by omega)
  have hstart : Rebuilding map ns (elements rows map.bucketsSize) ((List.range' 0 map.bucketsSize).flatMap rows)
      { map with links := { map.links with buckets := fun _ => none }, itemCount := 0, bucketsSize := ns } := by
    refine ⟨rfl, ⟨rfl, rfl, rfl, rfl⟩, fun _ => [], rows_empty, ?_, ?_⟩
    · rw [elements_empty]
      rfl
    · rw [elements_empty, nil_append, elements, range_eq_range']
  have hold : ∀ j, 0 ≤ j → j < 0 + map.bucketsSize → (rows j).length < map.itemCount + 1 ∧
      Chain map.links.next some none (map.links.buckets j) (rows j) := by
    intro j _ hj
    rw [Nat.zero_add] at hj
    exact ⟨hlen j hj, htable.chain j hj⟩
  obtain ⟨map', hdrain, hrebuilt⟩ := drainTable_ok (reinsert_ok hpos htable.elements_nodup) map.bucketsSize hstart hold
  refine ⟨ns, map', hgrow, hle, ?_, hrebuilt⟩
  rw [resize, if_neg hfits]
  simp only [hgrow, ok_bind]
  exact hdrain

theorem resize_ok (h : map.Ok hashOf rows es) :
    ∃ map' rows' es', resize map (map.itemCount + 1) = .ok map' ∧ map'.Ok hashOf rows' es' ∧ es'.Perm es ∧
      map'.itemCount + 1 ≤ map'.bucketsSize ∧ map'.itemCount = map.itemCount ∧
      (map'.hash = map.hash ∧ map'.key = map.key ∧ map'.value = map.value ∧ map'.fresh = map.fresh) := by
  by_cases hfits : map.itemCount + 1 ≤ map.bucketsSize
  · exact ⟨map, rows, es, by rw [resize, if_pos hfits], h, List.Perm.refl _, hfits, rfl, rfl, rfl, rfl, rfl⟩
  obtain ⟨ns, map', -, hle, hresize, hsize, hfields, rows', hrows, hcount, hperm⟩ :=
    rebuild_ok h.table (fun j hj => h.row_length hj) hfits
  rw [append_nil, ← h.all] at hperm
  have hitems : map'.itemCount = map.itemCount := by rw [hcount, hperm.length_eq, h.count]
  obtain ⟨hhash, hkey, hvalue, hfresh⟩ := hfields
  refine ⟨map', rows', elements rows' ns, hresize, ⟨?_, by rw [hsize], hcount, ?_, ?_, ?_, ?_, ?_⟩, hperm, ?_, hitems,
    hhash, hkey, hvalue, hfresh⟩
  · rw [hsize]
    exact hrows
  · rw [hitems, hsize]
    omega
  · intro a ha
    rw [hfresh]
    exact h.live a (hperm.subset ha)
  · intro a ha
    rw [hhash, hkey]
    exact h.hash a (hperm.subset ha)
  · intro a ha b hb
    rw [hkey]
    exact h.once a (hperm.subset ha) b (hperm.subset hb)
  · intro a ha
    rw [hvalue]
    exact h.nonzero a (hperm.subset ha)
  · rw [hitems, hsize]
    exact hle

/-! ## Insertion and deletion -/

theorem newElement_self (map : AgMap K) (hash : ℕ) (key : K) (p : ℕ) :
    (newElement map hash key p).hash map.fresh = hash ∧ (newElement map hash key p).key map.fresh = key ∧
      (newElement map hash key p).value map.fresh = p := by
  simp only [newElement, update_self, and_self]

theorem newElement_other {a : ℕ} (ha : a ≠ map.fresh) (hash : ℕ) (key : K) (p : ℕ) :
    (newElement map hash key p).hash a = map.hash a ∧ (newElement map hash key p).key a = map.key a ∧
      (newElement map hash key p).value a = map.value a := by
  simp only [newElement, update_of_ne ha, and_self]

theorem AgMap.Holds.insert [DecidableEq K] (hf : map.Holds es f) (hlive : ∀ a ∈ es, a ≠ map.fresh) {hash p : ℕ} {key : K}
    (hnew : ∀ a ∈ es, map.key a ≠ key) {es' : List ℕ} (hmem : ∀ a, a ∈ es' ↔ a = map.fresh ∨ a ∈ es) :
    (newElement map hash key p).Holds es' (update f key p) := by
  obtain ⟨-, hkey, hvalue⟩ := newElement_self map hash key p
  refine ⟨fun a ha => ?_, fun k hk => ?_⟩
  · rcases (hmem a).mp ha with rfl | ha
    · rw [hkey, hvalue, update_self]
    · obtain ⟨-, hka, hva⟩ := newElement_other (hlive a ha) hash key p
      rw [hka, hva, update_of_ne (hnew a ha)]
      exact hf.present a ha
  · have hne : k ≠ key := by
      rintro rfl
      exact hk map.fresh ((hmem _).mpr (.inl rfl)) hkey
    rw [update_of_ne hne]
    refine hf.absent k (fun a ha => ?_)
    rw [← (newElement_other (hlive a ha) hash key p).2.1]
    exact hk a ((hmem a).mpr (.inr ha))

theorem insertElement_ok [DecidableEq K] (h : map.Ok hashOf rows es) (hf : map.Holds es f) {key : K} {p : ℕ}
    (hroom : map.itemCount + 1 ≤ map.bucketsSize) (hnew : ∀ a ∈ es, map.key a ≠ key) (hp : p ≠ 0) :
    ∃ map' rows' es', insertElement (newElement map (hashOf key) key p) map.fresh = .ok map' ∧
      map'.Ok hashOf rows' es' ∧ map'.Holds es' (update f key p) := by
  have hpos : 0 < map.bucketsSize := by omega
  have hi : hashOf key % map.bucketsSize < map.bucketsSize := mod_lt _ hpos
  have hne : ∀ a ∈ es, a ≠ map.fresh := fun a ha => Nat.ne_of_lt (h.live a ha)
  have hfresh : map.fresh ∉ elements rows map.bucketsSize := by
    rw [← h.all]
    exact fun hmem => hne _ hmem rfl
  have htable : map.links.Rows map.bucketsSize
      (fun a => update map.hash map.fresh (hashOf key) a % map.bucketsSize) rows := by
    refine h.table.congr_pos (fun a ha => ?_)
    rw [← h.all] at ha
    rw [update_of_ne (hne a ha)]
  have hlink := (htable.congr_next hfresh none).link none [] _ hi rfl rfl hfresh (by simp only [update_self])
  have hperm := elements_update_perm (e := map.fresh) hi
    (List.Perm.refl (map.fresh :: rows (hashOf key % map.bucketsSize)))
  rw [← h.all] at hperm
  have hmem : ∀ a, a ∈ elements (update rows (hashOf key % map.bucketsSize)
      (map.fresh :: rows (hashOf key % map.bucketsSize))) map.bucketsSize ↔ a = map.fresh ∨ a ∈ es := by
    intro a
    rw [hperm.mem_iff, mem_cons]
  have hins : insertElement (newElement map (hashOf key) key p) map.fresh = .ok { newElement map (hashOf key) key p with
      links := BucketLinks.link ⟨update map.links.next map.fresh none, map.links.buckets⟩
        (hashOf key % map.bucketsSize) none map.fresh
      itemCount := map.itemCount + 1 } := by
    simp only [insertElement, newElement, hpos, decide_true, assert_true, ok_bind, update_self]
  obtain ⟨hself, hkey, hvalue⟩ := newElement_self map (hashOf key) key p
  have hother : ∀ a ∈ es, _ := fun a ha => newElement_other (hne a ha) (hashOf key) key p
  have hholds := @AgMap.Holds.insert K map es f _ hf hne (hashOf key) p key hnew _ hmem
  refine ⟨_, _, _, hins, ⟨hlink, rfl, ?_, hroom, ?_, ?_, ?_, ?_⟩, hholds.present, hholds.absent⟩
  · have hlen := hperm.length_eq
    rw [length_cons, ← h.count] at hlen
    exact hlen.symm
  · intro a ha
    rcases (hmem a).mp ha with rfl | ha
    · exact lt_succ_self _
    · exact lt_succ_of_lt (h.live a ha)
  · intro a ha
    rcases (hmem a).mp ha with rfl | ha
    · exact hself.trans (congrArg hashOf hkey.symm)
    · obtain ⟨hh, hk, -⟩ := hother a ha
      exact hh.trans ((h.hash a ha).trans (congrArg hashOf hk.symm))
  · intro a ha b hb he
    have he : (newElement map (hashOf key) key p).key a = (newElement map (hashOf key) key p).key b := he
    rcases (hmem a).mp ha with rfl | ha
    · rcases (hmem b).mp hb with rfl | hb
      · rfl
      · rw [hkey, (hother b hb).2.1] at he
        exact absurd he.symm (hnew b hb)
    · rcases (hmem b).mp hb with rfl | hb
      · rw [hkey, (hother a ha).2.1] at he
        exact absurd he (hnew a ha)
      · rw [(hother a ha).2.1, (hother b hb).2.1] at he
        exact h.once a ha b hb he
  · intro a ha
    rcases (hmem a).mp ha with rfl | ha
    · exact hvalue.trans_ne hp
    · exact (hother a ha).2.2.trans_ne (h.nonzero a ha)

theorem unlink_ok [DecidableEq K] (h : map.Ok hashOf rows es) (hf : map.Holds es f) {cur : ℕ} {ys zs : List ℕ}
    (hcur : cur ∈ es) (hrow : rows (hashOf (map.key cur) % map.bucketsSize) = ys ++ cur :: zs) :
    ∃ rows' es', AgMap.Ok hashOf { map with
        links := map.links.unlink (hashOf (map.key cur) % map.bucketsSize) ys.getLast? cur
        itemCount := map.itemCount - 1 } rows' es' ∧
      AgMap.Holds { map with
        links := map.links.unlink (hashOf (map.key cur) % map.bucketsSize) ys.getLast? cur
        itemCount := map.itemCount - 1 } es' (update f (map.key cur) 0) := by
  have hi : hashOf (map.key cur) % map.bucketsSize < map.bucketsSize := mod_lt _ (h.size_pos hcur)
  have htable := h.table.unlink hi hrow rfl
  have hperm := elements_unlink_perm hi hrow
  rw [← h.all] at hperm
  have hnodup := hperm.nodup_iff.mp h.nodup
  have hsub : ∀ a ∈ elements (update rows (hashOf (map.key cur) % map.bucketsSize) (ys ++ zs))
      map.bucketsSize, a ∈ es := fun a ha => hperm.mem_iff.mpr (mem_cons_of_mem _ ha)
  have hlen := hperm.length_eq
  rw [length_cons, ← h.count] at hlen
  refine ⟨_, _, ⟨htable, rfl, ?_, ?_, fun a ha => h.live a (hsub a ha), fun a ha => h.hash a (hsub a ha),
    fun a ha b hb => h.once a (hsub a ha) b (hsub b hb), fun a ha => h.nonzero a (hsub a ha)⟩, ?_, ?_⟩
  · simp only
    omega
  · have := h.fits
    simp only
    omega
  · intro a ha
    have hkey : map.key a ≠ map.key cur := by
      intro he
      obtain rfl := h.once a (hsub a ha) cur hcur he
      exact (nodup_cons.mp hnodup).1 ha
    rw [update_of_ne hkey]
    exact hf.present a (hsub a ha)
  · intro k hk
    by_cases hkey : k = map.key cur
    · subst hkey
      rw [update_self]
    · rw [update_of_ne hkey]
      refine hf.absent k (fun a ha => ?_)
      rcases mem_cons.mp (hperm.mem_iff.mp ha) with rfl | ha
      · exact fun he => hkey he.symm
      · exact hk a ha

theorem overwrite_ok [DecidableEq K] (h : map.Ok hashOf rows es) (hf : map.Holds es f) {cur p : ℕ} (hcur : cur ∈ es)
    (hp : p ≠ 0) :
    AgMap.Ok hashOf { map with value := update map.value cur p } rows es ∧
      AgMap.Holds { map with value := update map.value cur p } es (update f (map.key cur) p) := by
  refine ⟨⟨h.table, h.all, h.count, h.fits, h.live, h.hash, h.once, ?_⟩, ?_, ?_⟩
  · intro a ha
    by_cases hac : a = cur
    · subst hac
      simp only [update_self]
      exact hp
    · simp only [update_of_ne hac]
      exact h.nonzero a ha
  · intro a ha
    by_cases hac : a = cur
    · subst hac
      simp only [update_self]
    · have hkey : map.key a ≠ map.key cur := fun he => hac (h.once a ha cur hcur he)
      simp only [update_of_ne hac, update_of_ne hkey]
      exact hf.present a ha
  · intro k hk
    have hkey : k ≠ map.key cur := fun he => hk cur hcur he.symm
    rw [update_of_ne hkey]
    exact hf.absent k hk

section Keys

variable [DecidableEq K]

theorem find_spec (h : map.Ok hashOf rows es) (key : K) :
    (∃ a ys zs, a ∈ es ∧ map.key a = key ∧ rows (hashOf key % map.bucketsSize) = ys ++ a :: zs ∧
      find hashOf map key = .ok (ys.getLast?, some a)) ∨
    ((∀ a ∈ es, map.key a ≠ key) ∧ find hashOf map key = .ok (none, none)) := by
  by_cases hzero : map.itemCount = 0 ∨ map.bucketsSize = 0
  · refine .inr ⟨fun a ha => ?_, by rw [find, if_pos hzero]⟩
    have hpos := h.size_pos ha
    have hlen := length_pos_of_mem ha
    rw [← h.count] at hlen
    omega
  · have hi : hashOf key % map.bucketsSize < map.bucketsSize := mod_lt _ (by omega)
    obtain ⟨ys, hpass, hcase⟩ := seek_spec
      (fun a => if map.hash a ≠ hashOf key ∨ map.key a ≠ key then .pass else .hit) none (h.row_length hi)
      (h.table.chain _ hi)
    rcases hcase with ⟨a, zs, hrow, hhit, hseek⟩ | ⟨zs, hrow, hstop, hseek⟩
    · have ha : a ∈ es := h.row_mem hi (by rw [hrow]; simp)
      have hkey : map.key a = key := by
        by_contra hne
        simp [hne] at hhit
      refine .inl ⟨a, ys, zs, ha, hkey, hrow, ?_⟩
      simp only [find, hzero, if_false, hseek, ok_bind, reduceCtorEq, Option.or_none]
    · -- nothing stops this search, so it went through the whole row
      have hzs : zs = [] := by
        cases zs with
        | nil => rfl
        | cons z zs =>
          have := hstop z (by simp)
          split at this
          · cases this
          · cases this
      subst hzs
      rw [append_nil] at hrow
      refine .inr ⟨fun a ha hkey => ?_, ?_⟩
      · have hmem := h.mem_row ha
        have hhash := h.hash a ha
        rw [hkey] at hmem hhash
        rw [hrow] at hmem
        have := hpass a hmem
        simp [hkey, hhash] at this
      · simp only [find, hzero, if_false, hseek, ok_bind, if_true]

theorem agMapGet_ok (h : map.Ok hashOf rows es) (hf : map.Holds es f) (key : K) :
    agMapGet hashOf map key = .ok (f key) := by
  rcases find_spec h key with ⟨a, ys, zs, ha, hkey, -, hfind⟩ | ⟨hno, hfind⟩
  · have hval := hf.present a ha
    rw [hkey] at hval
    simp only [agMapGet, hfind, ok_bind, hval]
  · simp only [agMapGet, hfind, ok_bind, hf.absent key hno]

theorem agMapSet_ok (h : map.Ok hashOf rows es) (hf : map.Holds es f) (key : K) (p : ℕ) :
    ∃ map' rows' es', agMapSet hashOf map key p = .ok (map', f key) ∧ map'.Ok hashOf rows' es' ∧
      map'.Holds es' (update f key p) := by
  rcases find_spec h key with ⟨a, ys, zs, ha, rfl, hrow, hfind⟩ | ⟨hno, hfind⟩
  · have hpos := h.size_pos ha
    have hval := hf.present a ha
    by_cases hp : p = 0
    · subst hp
      obtain ⟨rows', es', h', hf'⟩ := unlink_ok h hf ha hrow
      refine ⟨_, rows', es', ?_, h', hf'⟩
      simp only [agMapSet, hfind, ok_bind, hpos, decide_true, assert_true, if_true, hval]
    · obtain ⟨h', hf'⟩ := overwrite_ok h hf ha hp
      refine ⟨_, rows, es, ?_, h', hf'⟩
      simp only [agMapSet, hfind, ok_bind, hpos, decide_true, assert_true, hp, if_false, hval]
  · have hzero := hf.absent key hno
    by_cases hp : p = 0
    · subst hp
      refine ⟨map, rows, es, ?_, h, ?_⟩
      · simp only [agMapSet, hfind, ok_bind, if_true, hzero]
      · rwa [← hzero, update_eq_self]
    · obtain ⟨map₁, rows₁, es₁, hresize, h₁, hperm, hroom, -, hhash, hkey, hvalue, hfresh⟩ := resize_ok h
      have hf₁ := hf.congr hperm hkey hvalue
      obtain ⟨map', rows', es', hins, h', hf'⟩ := insertElement_ok h₁ hf₁ hroom
        (fun a ha => by rw [hkey]; exact hno a (hperm.subset ha)) hp
      refine ⟨map', rows', es', ?_, h', hf'⟩
      simp only [agMapSet, hfind, ok_bind, hp, if_false, hresize, hins, hzero]

end Keys

/-! ## Enumeration -/

theorem chainCalls_ok {xs : List ℕ} : ∀ {fuel : ℕ} {head : Option ℕ}, xs.length < fuel →
    Chain map.links.next some none head xs →
    chainCalls map fuel head = .ok (xs.map fun a => (map.key a, map.value a)) := by
  induction xs with
  | nil =>
    intro fuel head hfuel h
    obtain ⟨n, rfl⟩ := exists_succ_of_lt hfuel
    have hhead : head = none := h
    subst hhead
    rfl
  | cons x xs ih =>
    intro fuel head hfuel h
    obtain ⟨n, rfl⟩ := exists_succ_of_lt hfuel
    obtain ⟨hhead, htail⟩ := h
    subst hhead
    have hlen : xs.length < n := by
      rw [length_cons] at hfuel
      omega
    simp only [chainCalls, ih hlen htail, ok_bind, map_cons]

theorem foreachFrom_ok (h : map.Ok hashOf rows es) (n : ℕ) : ∀ i, i + n = map.bucketsSize →
    foreachFrom map n i = .ok (((List.range' i n).flatMap rows).map fun a => (map.key a, map.value a)) := by
  induction n with
  | zero => exact fun _ _ => rfl
  | succ n ih =>
    intro i hi
    have hrow := chainCalls_ok (h.row_length (by omega)) (h.table.chain i (by omega))
    simp only [foreachFrom, hrow, ok_bind, ih (i + 1) (by omega), range'_succ, flatMap_cons, map_append]

theorem agMapForeach_ok (h : map.Ok hashOf rows es) :
    agMapForeach map = .ok (es.map fun a => (map.key a, map.value a)) := by
  rw [agMapForeach, foreachFrom_ok h _ 0 (by omega), h.all, elements, range_eq_range']

/-- What a caller sees of a map that holds `f`: its size, which is at most the number of buckets, the
calls of `foreach`, and the elements `_agMap_next` goes through from the null pointer on. -/
structure AgMap.Represents (map : AgMap K) (f : K → ℕ) : Prop where
  size : agMapSize map = {k | f k ≠ 0}.ncard
  size_le : agMapSize map ≤ map.bucketsSize
  foreach : ∃ calls, agMapForeach map = .ok calls ∧ (calls.map Prod.fst).Nodup ∧
    ∀ k v, (k, v) ∈ calls ↔ v ≠ 0 ∧ f k = v
  next : ∃ ites, Chain (fun a => agMapNext map (some a)) some none (agMapNext map none) ites ∧
    (ites.map map.key).Nodup ∧ ∀ k v, (∃ a ∈ ites, map.key a = k ∧ map.value a = v) ↔ v ≠ 0 ∧ f k = v

theorem AgMap.Ok.entries (h : map.Ok hashOf rows es) (hf : map.Holds es f) (k : K) (v : ℕ) :
    (∃ a ∈ es, map.key a = k ∧ map.value a = v) ↔ v ≠ 0 ∧ f k = v := by
  constructor
  · rintro ⟨a, ha, rfl, rfl⟩
    exact ⟨h.nonzero a ha, hf.present a ha⟩
  · rintro ⟨hv, rfl⟩
    by_contra hno
    refine hv (hf.absent k (fun a ha hk => hno ⟨a, ha, hk, ?_⟩))
    rw [← hk, hf.present a ha]

theorem AgMap.Ok.represents (h : map.Ok hashOf rows es) (hf : map.Holds es f) : map.Represents f := by
  classical
  have hkeys : (es.map map.key).Nodup := h.nodup.map_on (fun a ha b hb => h.once a ha b hb)
  refine ⟨?_, h.fits, ⟨_, agMapForeach_ok h, ?_, ?_⟩, ⟨es, ?_, hkeys, h.entries hf⟩⟩
  · have hset : {k | f k ≠ 0} = ↑(es.map map.key).toFinset := by
      ext k
      have he := h.entries hf k (f k)
      rw [and_iff_left rfl] at he
      rw [coe_toFinset]
      show f k ≠ 0 ↔ k ∈ es.map map.key
      rw [← he, mem_map]
      constructor
      · rintro ⟨a, ha, hk, -⟩
        exact ⟨a, ha, hk⟩
      · rintro ⟨a, ha, rfl⟩
        exact ⟨a, ha, rfl, (hf.present a ha).symm⟩
    rw [hset, Set.ncard_coe_finset, toFinset_card_of_nodup hkeys, length_map]
    exact h.count
  · rwa [map_map]
  · intro k v
    rw [← h.entries hf k v, mem_map]
    simp only [Prod.mk.injEq]
  · have hall := h.table.advance_all
    rw [← h.all] at hall
    exact hall

/-! ## Every run -/

inductive MapOp (K : Type)
  | set (key : K) (p : ℕ)
  | get (key : K)

def ipStep (map : AgMap UInt64) : MapOp UInt64 → Except Fault (AgMap UInt64 × ℕ)
  | .set key p => agMapIpSet map key p
  | .get key => do
    let p ← agMapIpGet map key
    .ok (map, p)

def spStep (map : AgMap CString) : MapOp CString → Except Fault (AgMap CString × ℕ)
  | .set key p => agMapSpSet map key p
  | .get key => do
    let p ← agMapSpGet map key
    .ok (map, p)

def finiteMapStep [DecidableEq K] (f : K → ℕ) : MapOp K → (K → ℕ) × ℕ
  | .set key p => (update f key p, f key)
  | .get key => (f, f key)

theorem mapStep_ok [DecidableEq K] (step : AgMap K → MapOp K → Except Fault (AgMap K × ℕ))
    (hset : ∀ map key p, step map (.set key p) = agMapSet hashOf map key p)
    (hget : ∀ map key, step map (.get key) = (do let p ← agMapGet hashOf map key; .ok (map, p)))
    (map : AgMap K) (f : K → ℕ) (op : MapOp K) (h : ∃ rows es, map.Ok hashOf rows es ∧ map.Holds es f) :
    ∃ map', step map op = .ok (map', (finiteMapStep f op).2) ∧
      ∃ rows es, map'.Ok hashOf rows es ∧ map'.Holds es (finiteMapStep f op).1 := by
  obtain ⟨rows, es, h, hf⟩ := h
  cases op with
  | set key p =>
    obtain ⟨map', rows', es', hstep, h', hf'⟩ := agMapSet_ok h hf key p
    exact ⟨map', by rw [hset, hstep]; rfl, rows', es', h', hf'⟩
  | get key =>
    refine ⟨map, ?_, rows, es, h, hf⟩
    rw [hget, agMapGet_ok h hf]
    rfl

theorem exec_map [DecidableEq K] (step : AgMap K → MapOp K → Except Fault (AgMap K × ℕ))
    (hset : ∀ map key p, step map (.set key p) = agMapSet hashOf map key p)
    (hget : ∀ map key, step map (.get key) = (do let p ← agMapGet hashOf map key; .ok (map, p)))
    (k : K) (ops : List (MapOp K)) :
    ∃ map, exec step (agMapNew k) ops = .ok (map, (specExec finiteMapStep (fun _ => 0) ops).2) ∧
      map.Represents (specExec finiteMapStep (fun _ => 0) ops).1 := by
  have hinit : ∃ rows es, (agMapNew k).Ok hashOf rows es ∧ (agMapNew k).Holds es (fun _ => 0) :=
    ⟨_, _, agMapNew_ok k, fun a ha => absurd ha (by simp), fun _ _ => rfl⟩
  obtain ⟨map, hexec, rows, es, h, hf⟩ := exec_simulates (mapStep_ok step hset hget) ops _ _ hinit
  exact ⟨map, hexec, h.represents hf⟩

/-- Every sequence of sets and gets on a new map, of integer keys or of string keys, returns what the
finite map returns, and the map then has its size and enumerates its entries once each. -/
theorem agMap_refines_finite_map :
    (∀ ops : List (MapOp UInt64), ∃ map,
      exec ipStep (agMapNew 0) ops = .ok (map, (specExec finiteMapStep (fun _ => 0) ops).2) ∧
      map.Represents (specExec finiteMapStep (fun _ => 0) ops).1) ∧
    ∀ ops : List (MapOp CString), ∃ map,
      exec spStep (agMapNew ⟨[], not_mem_nil⟩) ops = .ok (map, (specExec finiteMapStep (fun _ => 0) ops).2) ∧
      map.Represents (specExec finiteMapStep (fun _ => 0) ops).1 :=
  ⟨exec_map ipStep (fun _ _ _ => rfl) (fun _ _ => rfl) 0,
    exec_map spStep (fun _ _ _ => rfl) (fun _ _ => rfl) ⟨[], not_mem_nil⟩⟩

end CServer.Framework
