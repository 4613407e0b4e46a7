import CServer.Lib.Relocate
import CServer.Framework.Map

/-! # `framework/map.c`: a map that is emptied

`_agMap_empty` frees the elements and clears the buckets. It leaves `item_count` as it is and the table as large as
it was, so that the map need not behave like a new one: its size is wrong until the next resize, and a larger table
is gone through in another order.
-/
namespace CServer.Framework
open CServer.Lib Function List Nat

variable {K : Type}

/-! ## The code -/

/-- The inner loop of `_agMap_empty`: the values that are handed to `cb_free`, in order. -/
def emptyChain (map : AgMap K) : ℕ → Option ℕ → Except Fault (List ℕ)
  | 0, _ => .error .diverges
  | _ + 1, none => .ok []
  | fuel + 1, some cur => do
    let head := map.links.next cur
    let rest ← emptyChain map fuel head
    .ok (map.value cur :: rest)

def emptyFrom : ℕ → ℕ → AgMap K → Except Fault (AgMap K × List ℕ)
  | 0, _, map => .ok (map, [])
  | n + 1, i, map => do
    let head := map.links.buckets i
    let map := { map with links := { map.links with buckets := update map.links.buckets i none } }
    let freed ← emptyChain map (map.itemCount + 1) head
    let (map, rest) ← emptyFrom n (i + 1) map
    .ok (map, freed ++ rest)

def agMapEmpty (map : AgMap K) : Except Fault (AgMap K × List ℕ) := emptyFrom map.bucketsSize 0 map

/-- A call on a map. An element is passed to `_agMap_next` by its key, `none` is the null pointer. -/
inductive MapCall (K : Type)
  | set (key : K) (p : ℕ)
  | get (key : K)
  | size
  | next (ite : Option K)

inductive MapAnswer (K : Type)
  | pointer (p : ℕ)
  | size (n : ℕ)
  | element (e : Option (K × ℕ))
  deriving DecidableEq

def AgMap.entry (map : AgMap K) (a : ℕ) : K × ℕ := (map.key a, map.value a)

section Keys

variable [DecidableEq K] (hashOf : K → ℕ)

def mapCall (map : AgMap K) : MapCall K → Except Fault (AgMap K × MapAnswer K)
  | .set key p => do
    let (map, o) ← agMapSet hashOf map key p
    .ok (map, .pointer o)
  | .get key => do
    let p ← agMapGet hashOf map key
    .ok (map, .pointer p)
  | .size => .ok (map, .size (agMapSize map))
  | .next none => .ok (map, .element ((agMapNext map none).map map.entry))
  | .next (some key) => do
    let (_, cur) ← find hashOf map key
    match cur with
    | some cur => .ok (map, .element ((agMapNext map (some cur)).map map.entry))
    | none => .ok (map, .element none)

def answers (map : AgMap K) (calls : List (MapCall K)) : Except Fault (List (MapAnswer K)) :=
  (exec (mapCall hashOf) map calls).map Prod.snd

/-- The maps that calls lead to; `k` is what unused memory holds. -/
inductive AgMap.Reached (k : K) : AgMap K → Prop
  | new : Reached k (agMapNew k)
  | call {map map' : AgMap K} {c : MapCall K} {a : MapAnswer K} (h : Reached k map)
      (hc : mapCall hashOf map c = .ok (map', a)) : Reached k map'
  | empty {map map' : AgMap K} {freed : List ℕ} (h : Reached k map) (he : agMapEmpty map = .ok (map', freed)) :
      Reached k map'

/-- Emptied, the map answers every later sequence of calls as a new one does. -/
def EmptiesToNew (k : K) (map : AgMap K) : Prop :=
  ∃ map' freed, agMapEmpty map = .ok (map', freed) ∧
    ∀ calls, answers hashOf map' calls = answers hashOf (agMapNew k) calls

end Keys

/-! ## What every map keeps -/

structure AgMap.Sound (map : AgMap K) (rows : ℕ → List ℕ) : Prop where
  table : map.links.Rows map.bucketsSize (fun a => map.hash a % map.bucketsSize) rows
  bound : (elements rows map.bucketsSize).length ≤ map.itemCount
  live : ∀ a ∈ elements rows map.bucketsSize, a < map.fresh
  size : map.bucketsSize = 0 ∨ ∃ j, map.bucketsSize = 32 * 2 ^ j

variable {map map' : AgMap K} {rows : ℕ → List ℕ}

theorem agMapNew_sound (k : K) : (agMapNew k).Sound fun _ => [] :=
  ⟨rows_empty, Nat.zero_le _, fun a ha => by simp [elements] at ha, .inl rfl⟩

theorem AgMap.Sound.row_length (h : map.Sound rows) {i : ℕ} (hi : i < map.bucketsSize) :
    (rows i).length < map.itemCount + 1 :=
  lt_succ_of_le (Nat.le_trans (elements_length_le rows hi) h.bound)

theorem growSize_pow {s : ℕ} (fuel : ℕ) : ∀ {ns n : ℕ}, growSize s fuel ns = .ok n → ∃ j, n = ns * 2 ^ j := by
  induction fuel with
  | zero => exact fun h => nomatch h
  | succ fuel ih =>
    intro ns n h
    rw [growSize] at h
    split at h
    · obtain ⟨j, rfl⟩ := ih h
      exact ⟨j + 1, by ring⟩
    · exact ⟨0, by rw [pow_zero, mul_one]; exact (Except.ok.inj h).symm⟩

theorem resize_sound (h : map.Sound rows) : ∃ map' rows', resize map (map.itemCount + 1) = .ok map' ∧ map'.Sound rows' ∧
    0 < map'.bucketsSize ∧ (∀ a, a ∈ elements rows' map'.bucketsSize ↔ a ∈ elements rows map.bucketsSize) ∧
    map'.fresh = map.fresh := by
  by_cases hfits : map.itemCount + 1 ≤ map.bucketsSize
  · exact ⟨map, rows, if_pos hfits, h, by omega, fun _ => Iff.rfl, rfl⟩
  obtain ⟨ns, map', hgrow, hle, hresize, hns, hfields, rows', hrows, hcount, hperm⟩ :=
    rebuild_ok h.table (fun j hj => h.row_length hj) hfits
  have hsize : ∃ j, ns = 32 * 2 ^ j := by
    obtain ⟨j, hj⟩ := growSize_pow _ hgrow
    rcases h.size with h0 | ⟨i, hi⟩
    · rw [if_pos h0] at hj
      exact ⟨j, hj⟩
    · have hne : map.bucketsSize ≠ 0 := by
        rw [hi]
        positivity
      rw [if_neg hne, hi] at hj
      exact ⟨i + j, by rw [hj]; ring⟩
  rw [append_nil] at hperm
  subst hns
  refine ⟨map', rows', hresize, ⟨hrows, hcount.ge, fun a ha => ?_, .inr hsize⟩, by omega, fun a => hperm.mem_iff,
    hfields.2.2.2⟩
  rw [hfields.2.2.2]
  exact h.live a (hperm.subset ha)

theorem unlink_sound (h : map.Sound rows) {i a : ℕ} {ys zs : List ℕ} (hi : i < map.bucketsSize)
    (hrow : rows i = ys ++ a :: zs) :
    ∃ rows', AgMap.Sound { map with
      links := map.links.unlink i ys.getLast? a
      itemCount := map.itemCount - 1 } rows' := by
  have hperm := elements_unlink_perm hi hrow
  have hlen := hperm.length_eq
  rw [length_cons] at hlen
  refine ⟨_, h.table.unlink hi hrow rfl, ?_, ?_, h.size⟩
  · have := h.bound
    simp only
    omega
  · exact fun b hb => h.live b (hperm.mem_iff.mpr (mem_cons_of_mem _ hb))

def AgMap.inserted (map : AgMap K) (hash : ℕ) (key : K) (p : ℕ) : AgMap K :=
  { newElement map hash key p with
    links := (newElement map hash key p).links.link (hash % map.bucketsSize) none map.fresh
    itemCount := map.itemCount + 1 }

theorem insertElement_new (hpos : 0 < map.bucketsSize) (hash : ℕ) (key : K) (p : ℕ) :
    insertElement (newElement map hash key p) map.fresh = .ok (map.inserted hash key p) := by
  simp only [insertElement, AgMap.inserted, newElement, hpos, decide_true, assert_true, ok_bind, update_self]

theorem inserted_sound (h : map.Sound rows) (hpos : 0 < map.bucketsSize) (hash : ℕ) (key : K) (p : ℕ) :
    ∃ rows', (map.inserted hash key p).Sound rows' := by
  have hi : hash % map.bucketsSize < map.bucketsSize := mod_lt _ hpos
  have hnew : map.fresh ∉ elements rows map.bucketsSize := fun hmem => Nat.lt_irrefl _ (h.live _ hmem)
  have hhash : ∀ a ∈ elements rows map.bucketsSize,
      update map.hash map.fresh hash a % map.bucketsSize = map.hash a % map.bucketsSize := by
    intro a ha
    have hne : a ≠ map.fresh := fun he => hnew (he ▸ ha)
    rw [update_of_ne hne]
  have hrows := (h.table.congr_next hnew none).congr_pos hhash
  have hlink := hrows.link none [] (rows (hash % map.bucketsSize)) hi rfl rfl hnew
    (by rw [update_self])
  have hperm : (elements (update rows (hash % map.bucketsSize) ([] ++ map.fresh :: rows (hash % map.bucketsSize)))
      map.bucketsSize).Perm (map.fresh :: elements rows map.bucketsSize) := elements_update_perm hi (List.Perm.refl _)
  refine ⟨_, hlink, ?_, ?_, h.size⟩
  · have hlen := hperm.length_eq
    rw [length_cons] at hlen
    exact hlen.trans_le (succ_le_succ h.bound)
  · intro a ha
    obtain rfl | ha := mem_cons.mp (hperm.subset ha)
    · exact lt_succ_self _
    · exact lt_succ_of_lt (h.live a ha)

section Keys

variable [DecidableEq K] {hashOf : K → ℕ}

theorem find_sound (h : map.Sound rows) (key : K) :
    (∃ a ys zs, hashOf key % map.bucketsSize < map.bucketsSize ∧ rows (hashOf key % map.bucketsSize) = ys ++ a :: zs ∧
      find hashOf map key = .ok (ys.getLast?, some a)) ∨ find hashOf map key = .ok (none, none) := by
  by_cases hzero : map.itemCount = 0 ∨ map.bucketsSize = 0
  · exact .inr (by rw [find, if_pos hzero])
  · have hi : hashOf key % map.bucketsSize < map.bucketsSize := mod_lt _ (by omega)
    obtain ⟨ys, -, hcase⟩ := seek_spec
      (fun a => if map.hash a ≠ hashOf key ∨ map.key a ≠ key then .pass else .hit) none (h.row_length hi)
      (h.table.chain _ hi)
    rcases hcase with ⟨a, zs, hrow, -, hseek⟩ | ⟨zs, -, -, hseek⟩
    · refine .inl ⟨a, ys, zs, hi, hrow, ?_⟩
      simp only [find, hzero, if_false, hseek, ok_bind, reduceCtorEq, Option.or_none]
    · refine .inr ?_
      simp only [find, hzero, if_false, hseek, ok_bind, if_true]

theorem agMapSet_sound (h : map.Sound rows) {key : K} {p o : ℕ} (hs : agMapSet hashOf map key p = .ok (map', o)) :
    ∃ rows', map'.Sound rows' := by
  unfold agMapSet at hs
  have hcases := @find_sound K map rows _ hashOf h key
  rcases hcases with ⟨a, ys, zs, hi, hrow, hfind⟩ | hfind
  · have hpos : 0 < map.bucketsSize := zero_lt_of_lt hi
    simp only [hfind, ok_bind, hpos, decide_true, assert_true] at hs
    split at hs
    · obtain ⟨rfl, -⟩ := ok_pair_inj hs
      exact unlink_sound h hi hrow
    · obtain ⟨rfl, -⟩ := ok_pair_inj hs
      exact ⟨rows, h.table, h.bound, h.live, h.size⟩
  · simp only [hfind, ok_bind] at hs
    split at hs
    · obtain ⟨rfl, -⟩ := ok_pair_inj hs
      exact ⟨rows, h⟩
    · obtain ⟨map₁, rows₁, hresize, h₁, hpos, -, -⟩ := resize_sound h
      simp only [hresize, ok_bind, insertElement_new hpos] at hs
      obtain ⟨rfl, -⟩ := ok_pair_inj hs
      exact inserted_sound h₁ hpos (hashOf key) key p

theorem mapCall_sound (h : map.Sound rows) {c : MapCall K} {a : MapAnswer K} (hc : mapCall hashOf map c = .ok (map', a)) :
    ∃ rows', map'.Sound rows' := by
  unfold mapCall at hc
  split at hc
  · obtain ⟨⟨map₁, o⟩, hset, hc⟩ := bind_ok_iff.mp hc
    obtain ⟨rfl, -⟩ := ok_pair_inj hc
    exact agMapSet_sound h hset
  · obtain ⟨p, -, hc⟩ := bind_ok_iff.mp hc
    obtain ⟨rfl, -⟩ := ok_pair_inj hc
    exact ⟨rows, h⟩
  · obtain ⟨rfl, -⟩ := ok_pair_inj hc
    exact ⟨rows, h⟩
  · obtain ⟨rfl, -⟩ := ok_pair_inj hc
    exact ⟨rows, h⟩
  · obtain ⟨⟨parent, cur⟩, -, hc⟩ := bind_ok_iff.mp hc
    cases cur with
    | none =>
      obtain ⟨rfl, -⟩ := ok_pair_inj hc
      exact ⟨rows, h⟩
    | some cur =>
      obtain ⟨rfl, -⟩ := ok_pair_inj hc
      exact ⟨rows, h⟩

end Keys

/-! ## Emptying -/

theorem emptyChain_ok {map : AgMap K} {xs : List ℕ} : ∀ {fuel : ℕ} {head : Option ℕ}, xs.length < fuel →
    Chain map.links.next some none head xs → emptyChain map fuel head = .ok (xs.map map.value) := by
  induction xs with
  | nil =>
    intro fuel head hfuel h
    obtain ⟨n, rfl⟩ := exists_succ_of_lt hfuel
    have hhead : head = none := h
    subst hhead
    rfl
  | cons x xs ih =>
    intro fuel head hfuel h
    obtain ⟨n, rfl⟩ := exists_succ_of_lt hfuel
    obtain ⟨hhead, htail⟩ := h
    subst hhead
    have hlen : xs.length < n := by
      rw [length_cons] at hfuel
      omega
    simp only [emptyChain, ih hlen htail, ok_bind, map_cons]

def AgMap.cleared (map : AgMap K) (i n : ℕ) : AgMap K :=
  { map with links := { map.links with buckets := fun j => if i ≤ j ∧ j < i + n then none else map.links.buckets j } }

theorem emptyFrom_ok (n : ℕ) : ∀ {map : AgMap K} (i : ℕ),
    (∀ j, i ≤ j → j < i + n → (rows j).length < map.itemCount + 1 ∧
      Chain map.links.next some none (map.links.buckets j) (rows j)) →
    emptyFrom n i map = .ok (map.cleared i n, ((List.range' i n).flatMap rows).map map.value) := by
  induction n with
  | zero =>
    intro map i _
    have hsame : (fun j => if i ≤ j ∧ j < i + 0 then none else map.links.buckets j) = map.links.buckets := by
      funext j
      exact if_neg (by omega)
    rw [emptyFrom, AgMap.cleared, hsame]
    rfl
  | succ n ih =>
    intro map i hrows
    obtain ⟨hlen, hchain⟩ := hrows i (le_refl i) (by omega)
    have hrest : ∀ j, i + 1 ≤ j → j < i + 1 + n → (rows j).length < map.itemCount + 1 ∧
        Chain map.links.next some none (update map.links.buckets i none j) (rows j) := by
      intro j hij hjn
      rw [update_of_ne (by omega : j ≠ i)]
      exact hrows j (by omega) (by omega)
    obtain ⟨map₁, hmap₁⟩ : ∃ map₁ : AgMap K,
        map₁ = { map with links := { map.links with buckets := update map.links.buckets i none } } := ⟨_, rfl⟩
    have hfirst : emptyChain map₁ (map.itemCount + 1) (map.links.buckets i) = .ok ((rows i).map map.value) := by
      subst hmap₁
      exact emptyChain_ok hlen hchain
    have hnext : emptyFrom n (i + 1) map₁ = .ok (map₁.cleared (i + 1) n, ((List.range' (i + 1) n).flatMap rows).map map.value) := by
      subst hmap₁
      exact ih (i + 1) hrest
    rw [hmap₁] at hfirst hnext
    have hcleared : (fun j => if i + 1 ≤ j ∧ j < i + 1 + n then none else update map.links.buckets i none j) =
        fun j => if i ≤ j ∧ j < i + (n + 1) then none else map.links.buckets j := by
      funext j
      by_cases hj : j = i
      · subst hj
        rw [if_neg (by omega), if_pos (by omega), update_self]
      · rw [update_of_ne hj]
        exact if_congr (by omega) rfl rfl
    rw [emptyFrom]
    simp only [hfirst, ok_bind, hnext, AgMap.cleared, hcleared, range'_succ, flatMap_cons, map_append]

theorem agMapEmpty_ok (h : map.Sound rows) :
    agMapEmpty map = .ok (map.cleared 0 map.bucketsSize, (elements rows map.bucketsSize).map map.value) := by
  rw [elements, range_eq_range']
  refine emptyFrom_ok map.bucketsSize 0 fun j _ hj => ?_
  rw [Nat.zero_add] at hj
  exact ⟨h.row_length hj, h.table.chain j hj⟩

theorem cleared_buckets {i : ℕ} (hi : i < map.bucketsSize) : (map.cleared 0 map.bucketsSize).links.buckets i = none :=
  if_pos ⟨Nat.zero_le i, by rwa [Nat.zero_add]⟩

theorem cleared_sound (h : map.Sound rows) : (map.cleared 0 map.bucketsSize).Sound fun _ => [] := by
  refine ⟨⟨fun i hi => cleared_buckets hi, fun _ _ => nodup_nil, fun _ _ a ha => absurd ha not_mem_nil⟩, ?_, ?_,
    h.size⟩
  · simp [elements]
  · exact fun a ha => by simp [elements] at ha

theorem AgMap.Reached.sound [DecidableEq K] {hashOf : K → ℕ} {k : K} (h : AgMap.Reached hashOf k map) :
    ∃ rows, map.Sound rows := by
  induction h with
  | new => exact ⟨_, agMapNew_sound k⟩
  | call _ hc ih =>
    obtain ⟨rows, h⟩ := ih
    exact mapCall_sound h hc
  | empty _ he ih =>
    obtain ⟨rows, h⟩ := ih
    rw [agMapEmpty_ok h] at he
    obtain ⟨rfl, -⟩ := ok_pair_inj he
    exact ⟨_, cleared_sound h⟩

/-! ## The same map at other addresses -/

structure AgMap.Twin (d : ℕ) (map map' : AgMap K) : Prop where
  links : map.links.Moved map.fresh d map.bucketsSize map'.links
  hash : ∀ a < map.fresh, map'.hash (a + d) = map.hash a
  key : ∀ a < map.fresh, map'.key (a + d) = map.key a
  value : ∀ a < map.fresh, map'.value (a + d) = map.value a
  fresh : map'.fresh = map.fresh + d
  count : map'.itemCount = map.itemCount
  size : map'.bucketsSize = map.bucketsSize

variable {d : ℕ} {p p' : Option ℕ}

theorem update_twin {β : Type} {f f' : ℕ → β} {n x : ℕ} (h : ∀ a < n, a ≠ x → f' (a + d) = f a) (v : β) :
    ∀ a < n, update f' (x + d) v (a + d) = update f x v a := by
  intro a ha
  by_cases hax : a = x
  · subst hax
    rw [update_self, update_self]
  · have hne : a + d ≠ x + d := fun he => hax (Nat.add_right_cancel he)
    rw [update_of_ne hax, update_of_ne hne]
    exact h a ha hax

theorem AgMap.Twin.entry (h : map.Twin d map') (hp : Moved map.fresh d p p') :
    p'.map map'.entry = p.map map.entry := by
  rcases hp.cases with ⟨rfl, rfl⟩ | ⟨a, ha, rfl, rfl⟩
  · rfl
  · simp only [Option.map_some, AgMap.entry, h.key a ha, h.value a ha]

theorem AgMap.Twin.next (h : map.Twin d map') (hp : Moved map.fresh d p p') :
    Moved map.fresh d (agMapNext map p) (agMapNext map' p') := by
  rw [agMapNext, agMapNext, h.size]
  refine h.links.advance (fun a ha => ?_) hp
  rw [h.hash a ha]

theorem insertElement_twin (h : map.Twin d map') {a : ℕ} (ha : a < map.fresh) :
    Alike (fun m m' => m.Twin d m' ∧ m.fresh = map.fresh) (insertElement map a) (insertElement map' (a + d)) := by
  rw [insertElement, insertElement, h.size, h.hash a ha, h.count]
  by_cases hpos : 0 < map.bucketsSize
  · simp only [hpos, decide_true, assert_true, ok_bind]
    exact .ok ⟨⟨h.links.link (mod_lt _ hpos) ha, h.hash, h.key, h.value, h.fresh, rfl, rfl⟩, rfl⟩
  · simp only [hpos, decide_false]
    exact .error _

theorem reinsert_twin (h : map.Twin d map') {a : ℕ} (ha : a < map.fresh) :
    Alike (fun m m' => m.Twin d m' ∧ m.fresh = map.fresh) (reinsert map a) (reinsert map' (a + d)) := by
  have hcleared : AgMap.Twin d
      { map with links := { map.links with next := update map.links.next a none } }
      { map' with links := { map'.links with next := update map'.links.next (a + d) none } } :=
    ⟨⟨update_moved (fun b hb _ => h.links.next b hb) moved_none, h.links.buckets⟩, h.hash, h.key, h.value, h.fresh, h.count, h.size⟩
  exact insertElement_twin hcleared ha

theorem resize_twin (h : map.Twin d map') (s : ℕ) :
    Alike (fun m m' => m.Twin d m' ∧ m.fresh = map.fresh) (resize map s) (resize map' s) := by
  rw [resize, resize, h.size, h.count]
  by_cases hfits : s ≤ map.bucketsSize
  · rw [if_pos hfits, if_pos hfits]
    exact .ok ⟨h, rfl⟩
  · rw [if_neg hfits, if_neg hfits]
    simp only
    cases growSize s (s + 1) (if map.bucketsSize = 0 then 32 else map.bucketsSize) with
    | error e => exact .error e
    | ok ns =>
      simp only [ok_bind]
      refine drainTable_moved (R := fun m m' : AgMap K => m.Twin d m' ∧ m.fresh = map.fresh) ?_ ?_ _ h.links.buckets _
        (Nat.zero_add _).le
        ⟨⟨⟨h.links.next, fun _ _ => moved_none⟩, h.hash, h.key, h.value, h.fresh, rfl, rfl⟩, rfl⟩
      · rintro m m' ⟨hm, hfresh⟩ a ha
        rw [← hfresh]
        exact hm.links.next a (hfresh ▸ ha)
      · rintro m m' a ⟨hm, hfresh⟩ ha
        rw [← hfresh]
        exact reinsert_twin hm (hfresh ▸ ha)

theorem newElement_twin (h : map.Twin d map') (hash : ℕ) (key : K) (v : ℕ) :
    (newElement map hash key v).Twin d (newElement map' hash key v) := by
  have hlive : ∀ {a : ℕ}, a < map.fresh + 1 → a ≠ map.fresh → a < map.fresh := fun ha hne => by omega
  have hnext : (newElement map hash key v).links.Moved (map.fresh + 1) d map.bucketsSize
      (newElement map' hash key v).links := by
    simp only [newElement, h.fresh]
    exact ⟨update_moved (fun a ha hne => (h.links.next a (hlive ha hne)).mono (le_succ _)) moved_none,
      fun i hi => (h.links.buckets i hi).mono (le_succ _)⟩
  refine ⟨hnext, ?_, ?_, ?_, ?_, h.count, h.size⟩
  all_goals simp only [newElement, h.fresh]
  · exact update_twin (fun a ha hne => h.hash a (hlive ha hne)) hash
  · exact update_twin (fun a ha hne => h.key a (hlive ha hne)) key
  · exact update_twin (fun a ha hne => h.value a (hlive ha hne)) v
  · omega

section Keys

variable [DecidableEq K] {hashOf : K → ℕ}

theorem find_twin (h : map.Twin d map') (key : K) :
    Alike (fun r r' => Moved map.fresh d r.1 r'.1 ∧ Moved map.fresh d r.2 r'.2) (find hashOf map key)
      (find hashOf map' key) := by
  rw [find, find, h.count, h.size]
  by_cases hzero : map.itemCount = 0 ∨ map.bucketsSize = 0
  · rw [if_pos hzero, if_pos hzero]
    exact .ok ⟨moved_none, moved_none⟩
  · rw [if_neg hzero, if_neg hzero]
    have hi : hashOf key % map.bucketsSize < map.bucketsSize := mod_lt _ (by omega)
    refine (seek_moved h.links.next (fun a ha => ?_) _ moved_none (h.links.buckets _ hi)).bind ?_
    · simp only [h.hash a ha, h.key a ha]
    · rintro ⟨parent, ite⟩ ⟨parent', ite'⟩ ⟨hparent, hite⟩
      rcases hite.cases with ⟨rfl, rfl⟩ | ⟨a, ha, rfl, rfl⟩
      · exact .ok ⟨moved_none, moved_none⟩
      · exact .ok ⟨hparent, moved_some ha⟩

theorem agMapGet_twin (h : map.Twin d map') (key : K) :
    Alike Eq (agMapGet hashOf map key) (agMapGet hashOf map' key) := by
  refine (find_twin h key).bind ?_
  rintro ⟨parent, cur⟩ ⟨parent', cur'⟩ ⟨-, hcur⟩
  rcases hcur.cases with ⟨rfl, rfl⟩ | ⟨a, ha, rfl, rfl⟩
  · exact .ok rfl
  · exact .ok (h.value a ha).symm

theorem agMapSet_twin (h : map.Twin d map') (key : K) (v : ℕ) :
    Alike (fun r r' => r.1.Twin d r'.1 ∧ r.2 = r'.2) (agMapSet hashOf map key v) (agMapSet hashOf map' key v) := by
  refine (find_twin h key).bind ?_
  rintro ⟨parent, cur⟩ ⟨parent', cur'⟩ ⟨hparent, hcur⟩
  rcases hcur.cases with ⟨rfl, rfl⟩ | ⟨a, ha, rfl, rfl⟩
  · -- the key has no element
    simp only
    by_cases hv : v = 0
    · rw [if_pos hv, if_pos hv]
      exact .ok ⟨h, rfl⟩
    · rw [if_neg hv, if_neg hv, h.count]
      refine (resize_twin h _).bind ?_
      rintro m m' ⟨hm, -⟩
      have hins := insertElement_twin (newElement_twin hm (hashOf key) key v) (lt_succ_self m.fresh)
      rw [hm.fresh]
      exact hins.bind fun _ _ hr => .ok ⟨hr.1, rfl⟩
  · -- the element `a`
    simp only [h.size]
    by_cases hpos : 0 < map.bucketsSize
    · simp only [hpos, decide_true, assert_true, ok_bind, h.value a ha]
      by_cases hv : v = 0
      · rw [if_pos hv, if_pos hv, h.count]
        exact .ok ⟨⟨h.links.unlink ha hparent, h.hash, h.key, h.value, h.fresh, rfl, rfl⟩, rfl⟩
      · rw [if_neg hv, if_neg hv]
        exact .ok ⟨⟨h.links, h.hash, h.key, update_twin (fun b hb _ => h.value b hb) v, h.fresh, h.count, rfl⟩, rfl⟩
    · simp only [hpos, decide_false]
      exact .error _

theorem mapCall_twin (h : map.Twin d map') (c : MapCall K) :
    Alike (fun r r' => r.1.Twin d r'.1 ∧ r.2 = r'.2) (mapCall hashOf map c) (mapCall hashOf map' c) := by
  cases c with
  | set key v => exact (agMapSet_twin h key v).bind fun _ _ hr => .ok ⟨hr.1, by rw [hr.2]⟩
  | get key => exact (agMapGet_twin h key).bind fun _ _ hr => .ok ⟨h, by rw [hr]⟩
  | size => exact .ok ⟨h, by rw [agMapSize, agMapSize, h.count]⟩
  | next ite =>
    cases ite with
    | none => exact .ok ⟨h, by rw [h.entry (h.next moved_none)]⟩
    | some key =>
      refine (find_twin h key).bind ?_
      rintro ⟨parent, cur⟩ ⟨parent', cur'⟩ ⟨-, hcur⟩
      rcases hcur.cases with ⟨rfl, rfl⟩ | ⟨a, ha, rfl, rfl⟩
      · exact .ok ⟨h, rfl⟩
      · exact .ok ⟨h, by rw [h.entry (h.next (moved_some ha))]⟩

theorem answers_twin (h : map.Twin d map') (calls : List (MapCall K)) :
    answers hashOf map' calls = answers hashOf map calls :=
  ((exec_alike (R := AgMap.Twin d) (fun _ _ c h => mapCall_twin h c) calls map map' h).map_eq fun _ _ hr => hr.2).symm

end Keys

/-! ## A new map, and one that was emptied -/

def AgMap.blank (k : K) (size : ℕ) : AgMap K := { agMapNew k with bucketsSize := size }

theorem cleared_twin (k : K) (hcount : map.itemCount = 0) :
    AgMap.Twin map.fresh (.blank k map.bucketsSize) (map.cleared 0 map.bucketsSize) := by
  refine ⟨⟨fun a ha => absurd ha (Nat.not_lt_zero a), fun i hi => ?_⟩, ?_, ?_, ?_, (Nat.zero_add _).symm, hcount, rfl⟩
  · have hnone : (map.cleared 0 map.bucketsSize).links.buckets i = none := cleared_buckets hi
    rw [hnone]
    exact moved_none
  all_goals exact fun a ha => absurd ha (Nat.not_lt_zero a)

theorem resize_new (k : K) : resize (agMapNew k) 1 = .ok (.blank k 32) := rfl

section Keys

variable [DecidableEq K] {hashOf : K → ℕ}

theorem agMapSet_absent {m : AgMap K} {key : K} {p : ℕ} (hfind : find hashOf map key = .ok (none, none)) (hp : p ≠ 0)
    (hresize : resize map (map.itemCount + 1) = .ok m) (hpos : 0 < m.bucketsSize) :
    agMapSet hashOf map key p = .ok (m.inserted (hashOf key) key p, 0) := by
  simp only [agMapSet, hfind, ok_bind, hp, if_false, hresize, insertElement_new hpos]

theorem mapCall_new (k : K) (c : MapCall K) :
    Alike (fun r r' => (r.1 = r'.1 ∨ r.1 = agMapNew k ∧ r'.1 = .blank k 32) ∧ r.2 = r'.2)
      (mapCall hashOf (agMapNew k) c) (mapCall hashOf (.blank k 32) c) := by
  cases c with
  | set key v =>
    by_cases hv : v = 0
    · subst hv
      exact .ok ⟨.inr ⟨rfl, rfl⟩, rfl⟩
    · have hfirst : agMapSet hashOf (agMapNew k) key v = .ok ((AgMap.blank k 32).inserted (hashOf key) key v, 0) :=
        agMapSet_absent rfl hv (resize_new k) (zero_lt_succ 31)
      have hsecond : agMapSet hashOf (.blank k 32) key v = .ok ((AgMap.blank k 32).inserted (hashOf key) key v, 0) :=
        agMapSet_absent rfl hv rfl (zero_lt_succ 31)
      rw [mapCall, mapCall, hfirst, hsecond]
      exact .ok ⟨.inl rfl, rfl⟩
  | get key => exact .ok ⟨.inr ⟨rfl, rfl⟩, rfl⟩
  | size => exact .ok ⟨.inr ⟨rfl, rfl⟩, rfl⟩
  | next ite =>
    cases ite with
    | none => exact .ok ⟨.inr ⟨rfl, rfl⟩, rfl⟩
    | some key => exact .ok ⟨.inr ⟨rfl, rfl⟩, rfl⟩

theorem answers_new (k : K) (calls : List (MapCall K)) :
    answers hashOf (.blank k 32) calls = answers hashOf (agMapNew k) calls := by
  refine ((exec_alike (R := fun m m' => m = m' ∨ m = agMapNew k ∧ m' = .blank k 32) ?_ calls _ _ (.inr ⟨rfl, rfl⟩)).map_eq
    fun _ _ hr => hr.2).symm
  rintro m m' c (rfl | ⟨rfl, rfl⟩)
  · cases mapCall hashOf m c with
    | error e => exact .error e
    | ok r => exact .ok ⟨.inl rfl, rfl⟩
  · exact mapCall_new k c

theorem answers_two (k : K) {size : ℕ} (hsize : 2 ≤ size) {A B : K} (hne : hashOf A % size ≠ hashOf B % size) :
    answers hashOf (.blank k size) [.set A 1, .set B 1, .next none] =
      .ok [.pointer 0, .pointer 0, .element (some (if hashOf A % size < hashOf B % size then (A, 1) else (B, 1)))] := by
  have hpos : 0 < size := by omega
  have hA : hashOf A % size < size := mod_lt _ hpos
  have hB : hashOf B % size < size := mod_lt _ hpos
  obtain ⟨m₁, hm₁⟩ : ∃ m₁, m₁ = (AgMap.blank k size).inserted (hashOf A) A 1 := ⟨_, rfl⟩
  obtain ⟨m₂, hm₂⟩ : ∃ m₂, m₂ = m₁.inserted (hashOf B) B 1 := ⟨_, rfl⟩
  have hset₁ : agMapSet hashOf (.blank k size) A 1 = .ok (m₁, 0) := by
    have hfits : resize (.blank k size) 1 = .ok (AgMap.blank k size) := if_pos hpos
    rw [hm₁]
    exact agMapSet_absent rfl one_ne_zero hfits hpos
  have hfind : find hashOf m₁ B = .ok (none, none) := by
    have hnone : update (fun _ => none) (hashOf A % size) (some 0) (hashOf B % size) = none := by
      rw [update_of_ne hne.symm]
    have hfull : ¬ (m₁.itemCount = 0 ∨ m₁.bucketsSize = 0) := by
      rw [hm₁]
      exact fun hzero => hzero.elim (succ_ne_zero 0) hpos.ne'
    have hbucket : m₁.links.buckets (hashOf B % m₁.bucketsSize) = none := by
      rw [hm₁]
      exact hnone
    simp only [find, hfull, if_false, hbucket, seek, ok_bind, if_true]
  have hset₂ : agMapSet hashOf m₁ B 1 = .ok (m₂, 0) := by
    have hfits : resize m₁ (m₁.itemCount + 1) = .ok m₁ := by
      subst hm₁
      exact if_pos hsize
    rw [hm₂]
    exact agMapSet_absent hfind one_ne_zero hfits (by rw [hm₁]; exact hpos)
  have hbuckets : m₂.links.buckets =
      update (update (fun _ => none) (hashOf A % size) (some 0)) (hashOf B % size) (some 1) := by
    rw [hm₂, hm₁]
    rfl
  have hnext : (agMapNext m₂ none).map m₂.entry =
      some (if hashOf A % size < hashOf B % size then (A, 1) else (B, 1)) := by
    have hat : m₂.links.buckets (hashOf A % size) = some 0 ∧ m₂.links.buckets (hashOf B % size) = some 1 := by
      rw [hbuckets, update_of_ne hne, update_self, update_self]
      exact ⟨rfl, rfl⟩
    have hnone : ∀ x, x ≠ hashOf A % size → x ≠ hashOf B % size → m₂.links.buckets x = none := by
      intro x hxA hxB
      rw [hbuckets, update_of_ne hxB, update_of_ne hxA]
    have hfirst : agMapNext m₂ none = firstFrom m₂.links.buckets size 0 := by
      rw [hm₂, hm₁]
      rfl
    rw [hfirst]
    by_cases hlt : hashOf A % size < hashOf B % size
    · rw [if_pos hlt, firstFrom_eq hat.1 size (Nat.zero_le _) (by omega) fun x _ hx => hnone x (by omega) (by omega),
        hm₂, hm₁]
      rfl
    · rw [if_neg hlt, firstFrom_eq hat.2 size (Nat.zero_le _) (by omega) fun x _ hx => hnone x (by omega) (by omega),
        hm₂, hm₁]
      rfl
  rw [answers, exec, mapCall, hset₁]
  simp only [ok_bind, exec, mapCall, hset₂, hnext]
  rfl

structure Turned (hashOf : K → ℕ) (A B : K) : Prop where
  first : hashOf A = 32
  second : 0 < hashOf B ∧ hashOf B < 32

theorem emptiesToNew_iff {A B : K} (hAB : Turned hashOf A B) (k : K) (h : AgMap.Reached hashOf k map) :
    EmptiesToNew hashOf k map ↔ agMapSize map = 0 ∧ map.bucketsSize ≤ 32 := by
  obtain ⟨rows, hsound⟩ := h.sound
  have hempty := agMapEmpty_ok hsound
  have hblank : ∀ hcount : map.itemCount = 0, ∀ calls, answers hashOf (map.cleared 0 map.bucketsSize) calls =
      answers hashOf (.blank k map.bucketsSize) calls := fun hcount => answers_twin (cleared_twin k hcount)
  constructor
  · rintro ⟨map', freed, he, hsame⟩
    obtain ⟨rfl, -⟩ := ok_pair_inj (hempty.symm.trans he)
    have hcount : map.itemCount = 0 := by
      have hsize := hsame [.size]
      simpa [answers, exec, mapCall, agMapSize, AgMap.cleared, agMapNew, Except.map] using hsize
    refine ⟨hcount, ?_⟩
    by_contra hlarge
    have hlower : hashOf A % 32 < hashOf B % 32 := by
      rw [hAB.first, mod_eq_of_lt hAB.second.2]
      exact hAB.second.1
    have hupper : hashOf B % map.bucketsSize < hashOf A % map.bucketsSize := by
      have hlarge' : 32 < map.bucketsSize := Nat.lt_of_not_le hlarge
      rw [hAB.first, mod_eq_of_lt hlarge', mod_eq_of_lt (hAB.second.2.trans hlarge')]
      exact hAB.second.2
    have hfirst := hsame [.set A 1, .set B 1, .next none]
    rw [hblank hcount, ← answers_new, answers_two k (by omega) hupper.ne', answers_two k (by omega) hlower.ne,
      if_neg hupper.asymm, if_pos hlower] at hfirst
    have hkey : B = A := by simpa using hfirst
    rw [hkey] at hlower
    exact Nat.lt_irrefl _ hlower
  · rintro ⟨hcount, hle⟩
    refine ⟨_, _, hempty, fun calls => ?_⟩
    rw [hblank hcount]
    obtain hzero | ⟨j, hj⟩ := hsound.size
    · rw [hzero]
      rfl
    · have hone : map.bucketsSize = 32 := by
        have hpos : 0 < 2 ^ j := by positivity
        omega
      rw [hone, answers_new]

end Keys

/-- Exactly the maps that counted no elements when they were emptied and had not grown beyond the first table behave
like new ones. -/
theorem agMapEmpty_iff (ip : UInt64) (ipMap : AgMap UInt64) (name : CString) (spMap : AgMap CString) :
    (AgMap.Reached ipHash ip ipMap →
      (EmptiesToNew ipHash ip ipMap ↔ agMapSize ipMap = 0 ∧ ipMap.bucketsSize ≤ 32)) ∧
    (AgMap.Reached sCalcHash name spMap →
      (EmptiesToNew sCalcHash name spMap ↔ agMapSize spMap = 0 ∧ spMap.bucketsSize ≤ 32)) := by
  have hip : Turned ipHash 32 1 := ⟨by decide, by decide⟩
  have hsp : Turned sCalcHash ⟨[0x01], by decide⟩ ⟨[0xe3], by decide⟩ := ⟨by decide, by decide⟩
  exact ⟨fun h => emptiesToNew_iff hip ip h, fun h => emptiesToNew_iff hsp name h⟩

theorem agMapEmpty_deleted :
    (∃ map, AgMap.Reached ipHash 0 map ∧ map.bucketsSize = 32 ∧ EmptiesToNew ipHash 0 map) ∧
      EmptiesToNew sCalcHash ⟨[], not_mem_nil⟩ (agMapNew ⟨[], not_mem_nil⟩) := by
  have hset : mapCall ipHash (agMapNew 0) (.set 5 7) = .ok ((AgMap.blank 0 32).inserted 5 5 7, .pointer 0) := rfl
  have hdelete : mapCall ipHash ((AgMap.blank 0 32).inserted 5 5 7) (.set 5 0) =
      .ok ({ (AgMap.blank 0 32).inserted 5 5 7 with
        links := ((AgMap.blank 0 32).inserted 5 5 7).links.unlink 5 none 0
        itemCount := 0 }, .pointer 7) := rfl
  have hnew : AgMap.Reached ipHash 0 (agMapNew 0) := .new
  have hreached := (hnew.call hset).call hdelete
  have hnone : AgMap.Reached sCalcHash ⟨[], not_mem_nil⟩ (agMapNew ⟨[], not_mem_nil⟩) := .new
  refine ⟨⟨_, hreached, rfl, ?_⟩, ?_⟩
  · exact ((agMapEmpty_iff 0 _ ⟨[], not_mem_nil⟩ (agMapNew ⟨[], not_mem_nil⟩)).1 hreached).mpr ⟨rfl, Nat.le_refl 32⟩
  · exact ((agMapEmpty_iff 0 (agMapNew 0) ⟨[], not_mem_nil⟩ _).2 hnone).mpr ⟨rfl, Nat.zero_le 32⟩

/-- One key that was set: the emptied map says that it has an element. -/
theorem agMapEmpty_size : ∃ map map' freed, AgMap.Reached ipHash 0 map ∧ agMapEmpty map = .ok (map', freed) ∧
    answers ipHash map' [.size] = .ok [.size 1] ∧ answers ipHash (agMapNew 0) [.size] = .ok [.size 0] := by
  have hset : mapCall ipHash (agMapNew 0) (.set 5 7) = .ok ((AgMap.blank 0 32).inserted 5 5 7, .pointer 0) := rfl
  exact ⟨_, _, _, .call .new hset, agMapEmpty_ok (inserted_sound ⟨rows_empty, Nat.zero_le _, fun a ha => by
    simp [elements] at ha, .inr ⟨0, rfl⟩⟩ (zero_lt_succ 31) 5 5 7).choose_spec, rfl, rfl⟩

end CServer.Framework
