import CServer.Lib.Keyed
import CServer.Lib.Memory
import CServer.Lib.Exec

/-! # `world/modules/item.c`: the items of a player and their totals by type

A player's items are a list with one item for each id; `set->m` finds the item of an id in it, and `set->m3` caches for
every item type the sum of the counts. A count is an `unsigned int`, the change reported to the cache an `int32_t`.

Reading an item may let it grow (`calc_item_grow_count`), and lowering a count raises quest events whose handlers may call
back into the module. So a call is a list of instructions on a stack; the handlers of an event run while `handlers` is on
top of it, and there, and when the stack is empty, a new call may begin. `Tick` carries out the top instruction; it is told
whether the `insert` it may send succeeds.

Logs, notifications, broadcasts and the compensation for overflowing growth are left out; items are never deleted (the
branches that would are switched off in the source).
-/
namespace CServer.Modules
open CServer.Lib Function
open List hiding lookup set

/-! ## Machine integers -/

def toInt (z : ℤ) : ℤ := (z + 2 ^ 31) % 2 ^ 32 - 2 ^ 31

def toUnsigned (z : ℤ) : ℕ := (z % 2 ^ 32).toNat

/-- An `int` as a key of a map, which has 64 bits. -/
def mapKey (z : ℤ) : ℕ := (z % 2 ^ 64).toNat

def IsInt (z : ℤ) : Prop := -2 ^ 31 ≤ z ∧ z < 2 ^ 31

instance (z : ℤ) : Decidable (IsInt z) := inferInstanceAs (Decidable (_ ∧ _))

def quotient (a b : ℤ) : Except Fault ℤ := if b = 0 then .error .divisionByZero else .ok (a.tdiv b)

/-! ## `calc_item_grow_count` -/

structure ItemGrowInfo where
  beginTime : ℤ
  endTime : ℤ
  period : ℤ
  amount : ℤ
  limit : ℤ
  isReset : ℤ

/-- The entries that are over are taken out of the configuration. -/
def dropOver (now : ℤ) (grow : List ItemGrowInfo) : List ItemGrowInfo :=
  grow.dropWhile fun g => decide (¬ g.endTime > now)

structure GrowCount where
  count : ℤ
  modified : Bool

/-- The start of growth for a player created at `create`. -/
def growBegin (grow : ItemGrowInfo) (create : ℤ) : Except Fault ℤ := do
  if create > grow.beginTime then
    let n ← quotient (create - grow.beginTime) grow.period
    return grow.beginTime + n * grow.period
  else return grow.beginTime

def growReset (grow : ItemGrowInfo) (beginTime now startTime : ℤ) : Bool :=
  decide (grow.isReset ≠ 0 ∧
    toInt ((now - (beginTime - grow.isReset)).tdiv grow.isReset) ≠
      toInt ((startTime - (beginTime - grow.isReset)).tdiv grow.isReset))

def calcItemGrowCount (grow : List ItemGrowInfo) (create now count updateTime : ℤ) : Except Fault GrowCount :=
  match dropOver now grow with
  | [] => .ok ⟨count, false⟩
  | grow :: _ => do
    if grow.beginTime > now then return ⟨count, false⟩
    let startTime := toInt updateTime
    let beginTime ← growBegin grow create
    let reset := growReset grow beginTime now startTime
    let count := if reset then 0 else count
    if (← quotient (updateTime - grow.beginTime) grow.period) ≥ (← quotient (now - grow.beginTime) grow.period) then
      return ⟨count, reset⟩
    let startTime := if beginTime ≥ startTime then toInt (beginTime - 1) else startTime
    let p1 := toInt (← quotient (now - (beginTime - grow.period)) grow.period)
    let p2 := toInt (← quotient (startTime - (beginTime - grow.period)) grow.period)
    let grown := toInt (count + (p1 - p2) * grow.amount)
    return ⟨if grown > grow.limit then (if count > grow.limit then count else grow.limit) else grown, true⟩

/-! ## The code -/

structure Item where
  id : ℕ
  limit : ℕ
  updateTime : ℤ

def growthItem : ℕ := 100000

inductive ItemInstr
  | get (id : ℕ)
  | next (id : Option ℕ)
  | addRest (id limit : ℕ)
  | setRest (id limit : ℕ)
  | setLimit (id limit : ℕ)
  | remove (id limit : ℕ)
  | touch (id : ℕ)
  | handlers

structure ItemSet where
  list : List Item
  m3 : ℕ → ℤ
  grow : ℕ → List ItemGrowInfo
  now : ℤ
  todo : List ItemInstr

variable (type : ℕ → ℤ)

def countRow (m3 : ℕ → ℤ) (cur : Item) : ℕ → ℤ :=
  if type cur.id ≠ 0 then update m3 (mapKey (type cur.id)) (m3 (mapKey (type cur.id)) + cur.limit) else m3

/-- `item_load` for the rows of a player; `type` is the type each id has in the configuration. -/
def itemLoad (grow : ℕ → List ItemGrowInfo) (now : ℤ) (rows : List Item) : ItemSet where
  list := rows
  m3 := rows.foldl (countRow type) fun _ => 0
  grow := grow
  now := now
  todo := []

namespace ItemSet

variable (s : ItemSet)

def find (id : ℕ) : Option Item := lookup Item.id id s.list

def increaseItemTotalBySubType (subType : ℕ) (value : ℤ) : ItemSet :=
  { s with m3 := update s.m3 subType (s.m3 subType + value) }

def decreaseItemTotalBySubType (subType : ℕ) (value : ℤ) : ItemSet :=
  { s with m3 := update s.m3 subType (if s.m3 subType - value > 0 then s.m3 subType - value else 0) }

def addNotify (type : ℕ → ℤ) (s : ItemSet) (id : ℕ) (change : ℤ) : ItemSet :=
  if type id ≠ 0 then
    if change > 0 then s.increaseItemTotalBySubType (toUnsigned (type id)) change
    else s.decreaseItemTotalBySubType (toUnsigned (type id)) (-change)
  else s

def updateLimit (id limit : ℕ) : ItemSet :=
  { s with list := adjust Item.id id (fun i => { i with limit := limit }) s.list }

def push (is : List ItemInstr) : ItemSet := { s with todo := is ++ s.todo }

def changeLimit (type : ℕ → ℤ) (s : ItemSet) (item : Item) (limit : ℕ) : ItemSet :=
  let change := toInt (limit - item.limit)
  let s := (s.updateLimit item.id limit).addNotify type item.id change
  if change < 0 then s.push [.handlers] else s

def insert (item : Item) : ItemSet := { s with list := s.list ++ [item] }

def calcGrow (create : ℤ) (id : ℕ) (count updateTime : ℤ) : Except Fault GrowCount :=
  calcItemGrowCount (s.grow id) create s.now count updateTime

def pruned (id : ℕ) : ItemSet :=
  { s with grow := update s.grow id (dropOver s.now (s.grow id)) }

def dlistNext : Option ℕ → Option Item
  | none => s.list.head?
  | some id => (s.list.dropWhile fun i => i.id ≠ id).tail.head?

/-- One instruction. `create` is the creation time of the player, `stored` the outcome of the insert. -/
def exec (type : ℕ → ℤ) (create : ℤ) (stored : Bool) (s : ItemSet) : ItemInstr → Except Fault ItemSet
  | .get id =>
    match s.find id with
    | some item => do
      let g ← s.calcGrow create id (toInt item.limit) item.updateTime
      let s := s.pruned id
      if g.modified then
        return s.push ((if id ≠ growthItem then [.get growthItem, .addRest growthItem 1] else []) ++
          [.setLimit id (toUnsigned g.count), .touch id])
      else return s
    | none => do
      let g ← s.calcGrow create id 0 0
      let s := s.pruned id
      if g.count > 0 ∧ stored = true then return s.insert ⟨id, toUnsigned g.count, s.now⟩ else return s
  | .next prev =>
    match s.dlistNext prev with
    | none => return s
    | some item => do
      let g ← s.calcGrow create item.id (toInt item.limit) item.updateTime
      let s := s.pruned item.id
      if g.modified then return s.push [.setLimit item.id (toUnsigned g.count), .touch item.id] else return s
  | .addRest id limit =>
    match s.find id with
    | none => do
      let g ← s.calcGrow create id 0 0
      let s := s.pruned id
      if stored = true then
        return (s.insert ⟨id, toUnsigned (limit + g.count), s.now⟩).addNotify type id (toInt limit)
      else return s
    | some item =>
      if limit > 0 then
        return (s.updateLimit id ((item.limit + limit) % 2 ^ 32)).addNotify type id (toInt limit)
      else return s
  | .setRest id limit =>
    match s.find id with
    | some item => return s.changeLimit type item limit
    | none => if limit > 0 then return s.push [.get id, .addRest id limit] else return s
  | .setLimit id limit =>
    match s.find id with
    | some item => if item.limit = limit then return s else return s.changeLimit type item limit
    | none => return s
  | .remove id limit =>
    match s.find id with
    | some item =>
      if limit = 0 ∨ item.limit < limit then return s else return s.push [.setLimit id (item.limit - limit)]
    | none => return s
  | .touch id => return { s with list := adjust Item.id id (fun i => { i with updateTime := s.now }) s.list }
  | .handlers => return s

end ItemSet

inductive ItemCall
  | get (id : ℕ)
  | next (prev : Option ℕ)
  | add (id limit : ℕ)
  | set (id limit : ℕ)
  | setLimit (id limit : ℕ)
  | remove (id limit : ℕ)

/-- What a call does, one instruction after another; counts are converted to `unsigned int`. -/
def ItemCall.code : ItemCall → List ItemInstr
  | .get id => [.get id]
  | .next prev => [.next prev]
  | .add id limit => [.get id, .addRest id (limit % 2 ^ 32)]
  | .set id limit => [.get id, .setRest id (limit % 2 ^ 32)]
  | .setLimit id limit => [.setLimit id (limit % 2 ^ 32)]
  | .remove id limit => [.remove id (limit % 2 ^ 32)]

inductive ItemAct
  | call (c : ItemCall)
  | tick (stored : Bool)
  | time (now : ℤ)

/-- A call may begin where the program is outside the module: nothing to do, or in event handlers. -/
def ItemSet.outside (s : ItemSet) : Bool :=
  match s.todo with
  | [] => true
  | .handlers :: _ => true
  | _ :: _ => false

def itemStep (create : ℤ) (s : ItemSet) : ItemAct → Except Fault ItemSet
  | .call c => return if s.outside then s.push c.code else s
  | .tick stored =>
    match s.todo with
    | [] => return s
    | i :: rest => { s with todo := rest }.exec type create stored i
  | .time now => return if s.todo.isEmpty then { s with now := now } else s

/-! ## The totals -/

def Item.weight (t : ℤ) (i : Item) : ℤ := if type i.id = t then i.limit else 0

def ItemSet.total (s : ItemSet) (t : ℤ) : ℤ := sumOf (Item.weight type t) s.list

/-- `get_item_count_by_sub_type` looks a type up as an `unsigned int`. -/
def ItemSet.TotalsRight (s : ItemSet) : Prop :=
  ∀ t, IsInt t → t ≠ 0 → s.m3 (toUnsigned t) = s.total type t

/-- Where the type is counted, the next instruction changes a count by exactly what it reports: no item is created by growth
alone, one created by `item_add` has not grown and its count fits in an `int`, a count added to another is carried over
exactly when it is negative as an `int`, and a count set anew differs from the old one by an `int`. -/
def Reports (create : ℤ) (s : ItemSet) : ItemAct → Prop
  | .call _ => True
  | .time _ => True
  | .tick stored =>
    match s.todo with
    | .get id :: _ => type id ≠ 0 → s.find id = none → stored = true →
        ∀ g, s.calcGrow create id 0 0 = .ok g → g.count ≤ 0
    | .addRest id limit :: _ => type id ≠ 0 →
        (s.find id = none → stored = true → limit < 2 ^ 31 ∧ ∀ g, s.calcGrow create id 0 0 = .ok g → g.count = 0) ∧
        ∀ item, s.find id = some item → (item.limit + limit < 2 ^ 32 ↔ limit < 2 ^ 31)
    | .setRest id limit :: _ => type id ≠ 0 → ∀ item, s.find id = some item →
        -2 ^ 31 ≤ (limit - item.limit : ℤ) ∧ (limit - item.limit : ℤ) < 2 ^ 31
    | .setLimit id limit :: _ => type id ≠ 0 → ∀ item, s.find id = some item →
        -2 ^ 31 ≤ (limit - item.limit : ℤ) ∧ (limit - item.limit : ℤ) < 2 ^ 31
    | _ => True

/-! ## The invariant -/

def ItemInstr.Fits : ItemInstr → Prop
  | .addRest _ limit => limit < 2 ^ 32
  | .setRest _ limit => limit < 2 ^ 32
  | .setLimit _ limit => limit < 2 ^ 32
  | _ => True

structure ItemSet.Ok (type : ℕ → ℤ) (s : ItemSet) : Prop where
  types : ∀ id, IsInt (type id)
  unique : DistinctKeys Item.id s.list
  bounded : ∀ i ∈ s.list, i.limit < 2 ^ 32
  fits : ∀ i ∈ s.todo, i.Fits
  totals : s.TotalsRight type

section Steps
variable {type : ℕ → ℤ} {s : ItemSet}

theorem toInt_of_int {z : ℤ} (h : -2 ^ 31 ≤ z) (h' : z < 2 ^ 31) : toInt z = z := by
  unfold toInt
  omega

theorem toUnsigned_inj {a b : ℤ} (ha : IsInt a) (hb : IsInt b) (h : toUnsigned a = toUnsigned b) : a = b := by
  unfold IsInt at ha hb
  unfold toUnsigned at h
  omega

theorem toUnsigned_lt (z : ℤ) : toUnsigned z < 2 ^ 32 := by
  unfold toUnsigned
  omega

theorem ItemSet.find_mem {id : ℕ} {item : Item} (h : s.find id = some item) : item ∈ s.list ∧ item.id = id :=
  lookup_some h

theorem weight_nonneg (t : ℤ) (i : Item) : 0 ≤ i.weight type t := by
  unfold Item.weight
  split
  · exact Int.natCast_nonneg _
  · exact le_refl 0

theorem total_nonneg (t : ℤ) : 0 ≤ s.total type t := sumOf_nonneg fun i _ => weight_nonneg t i

theorem ItemSet.Ok.push (h : s.Ok type) {is : List ItemInstr} (his : ∀ i ∈ is, i.Fits) : (s.push is).Ok type :=
  ⟨h.types, h.unique, h.bounded, fun i hi => (mem_append.mp hi).elim (his i) (h.fits i), h.totals⟩

theorem ItemSet.Ok.pruned (h : s.Ok type) (id : ℕ) : (s.pruned id).Ok type :=
  ⟨h.types, h.unique, h.bounded, h.fits, h.totals⟩

@[simp] theorem addNotify_list (id : ℕ) (change : ℤ) : (s.addNotify type id change).list = s.list := by
  unfold ItemSet.addNotify
  split
  · split <;> rfl
  · rfl

@[simp] theorem addNotify_todo (id : ℕ) (change : ℤ) : (s.addNotify type id change).todo = s.todo := by
  unfold ItemSet.addNotify
  split
  · split <;> rfl
  · rfl

theorem addNotify_totals {s' : ItemSet} (htype : ∀ id, IsInt (type id)) (h : s.TotalsRight type) (id : ℕ) (change : ℤ)
    (hm : s'.m3 = s.m3)
    (hnew : ∀ t, t ≠ 0 → s'.total type t = s.total type t + if type id = t then change else 0) :
    (s'.addNotify type id change).TotalsRight type := by
  intro t hint ht
  have hl : (s'.addNotify type id change).total type t = s'.total type t := by
    rw [ItemSet.total, addNotify_list, ItemSet.total]
  rw [hl, hnew t ht]
  have hpos := @total_nonneg type s' t
  rw [hnew t ht] at hpos
  unfold ItemSet.addNotify
  by_cases hid : type id = t
  · subst hid
    simp only [ht, ne_eq, not_false_eq_true, if_true] at hpos ⊢
    by_cases hc : change > 0
    · simp only [hc, if_true, ItemSet.increaseItemTotalBySubType, update_self, hm, h _ hint ht]
    · simp only [hc, if_false, ItemSet.decreaseItemTotalBySubType, update_self, hm, h _ hint ht]
      split <;> omega
  · simp only [hid, if_false, add_zero]
    rw [← h t hint ht, ← hm]
    have hkey : toUnsigned t ≠ toUnsigned (type id) := fun he => hid (toUnsigned_inj hint (htype id) he).symm
    split
    · split
      · exact update_of_ne hkey _ _
      · exact update_of_ne hkey _ _
    · rfl

theorem total_updateLimit (h : s.Ok type) {id limit : ℕ} {item : Item} (hf : s.find id = some item) (t : ℤ) :
    (s.updateLimit id limit).total type t =
      s.total type t + if type id = t then (limit - item.limit : ℤ) else 0 := by
  rw [ItemSet.total, ItemSet.updateLimit]
  simp only
  rw [sumOf_adjust h.unique hf, ItemSet.total]
  congr 1
  unfold Item.weight
  simp only [(ItemSet.find_mem hf).2]
  split
  · rfl
  · exact sub_zero 0

theorem ItemSet.Ok.change (h : s.Ok type) {id limit : ℕ} {item : Item} (hf : s.find id = some item)
    (hl : limit < 2 ^ 32) {change : ℤ} (hc : type id ≠ 0 → change = limit - item.limit) :
    ((s.updateLimit id limit).addNotify type id change).Ok type where
  types := h.types
  unique := by
    rw [addNotify_list]
    exact @DistinctKeys.adjust _ _ _ Item.id id (fun i => { i with limit := limit }) (fun _ => rfl) s.list h.unique
  bounded := by
    rw [addNotify_list]
    intro i hi
    obtain ⟨j, hj, rfl⟩ := mem_map.mp hi
    split
    · exact hl
    · exact h.bounded j hj
  fits := by
    rw [addNotify_todo]
    exact h.fits
  totals := by
    refine @addNotify_totals type s _ h.types h.totals id change rfl ?_
    intro t ht
    rw [total_updateLimit h hf]
    by_cases hid : type id = t
    · rw [if_pos hid, if_pos hid, hc (by rw [hid]; exact ht)]
    · rw [if_neg hid, if_neg hid]

theorem ItemSet.Ok.changeLimit (h : s.Ok type) {item : Item} (hf : s.find item.id = some item) {limit : ℕ}
    (hl : limit < 2 ^ 32) (hr : type item.id ≠ 0 → -2 ^ 31 ≤ (limit - item.limit : ℤ) ∧ (limit - item.limit : ℤ) < 2 ^ 31) :
    (s.changeLimit type item limit).Ok type := by
  have hok := h.change hf hl (fun ht => toInt_of_int (hr ht).1 (hr ht).2)
  unfold ItemSet.changeLimit
  simp only
  split
  · exact hok.push fun i hi => by rw [mem_singleton.mp hi]; trivial
  · exact hok

theorem ItemSet.Ok.insert (h : s.Ok type) {item : Item} (hf : s.find item.id = none) (hl : item.limit < 2 ^ 32)
    {change : ℤ} (hc : type item.id ≠ 0 → change = item.limit) :
    ((s.insert item).addNotify type item.id change).Ok type where
  types := h.types
  unique := by
    rw [addNotify_list]
    exact h.unique.snoc hf
  bounded := by
    rw [addNotify_list]
    intro i hi
    rcases mem_append.mp hi with hi | hi
    · exact h.bounded i hi
    · rw [mem_singleton.mp hi]
      exact hl
  fits := by
    rw [addNotify_todo]
    exact h.fits
  totals := by
    refine @addNotify_totals type s _ h.types h.totals item.id change rfl ?_
    intro t ht
    have hs : (s.insert item).total type t = s.total type t + item.weight type t := sumOf_snoc _ _ _
    rw [hs, Item.weight]
    by_cases hid : type item.id = t
    · rw [if_pos hid, if_pos hid, hc (by rw [hid]; exact ht)]
    · rw [if_neg hid, if_neg hid]

theorem ItemSet.Ok.insert_silent (h : s.Ok type) {item : Item} (hf : s.find item.id = none)
    (hl : item.limit < 2 ^ 32) (ht : type item.id = 0) : (s.insert item).Ok type := by
  have hok := @ItemSet.Ok.insert type s h item hf hl 0 (fun hne => absurd ht hne)
  unfold ItemSet.addNotify at hok
  rwa [if_neg (by simpa using ht)] at hok

theorem ItemSet.Ok.touch (h : s.Ok type) (id : ℕ) :
    ItemSet.Ok type { s with list := adjust Item.id id (fun i => { i with updateTime := s.now }) s.list } := by
  have hkeep : ∀ t, sumOf (Item.weight type t) (adjust Item.id id (fun i => { i with updateTime := s.now }) s.list) =
      sumOf (Item.weight type t) s.list := by
    intro t
    rw [sumOf, adjust, map_map, sumOf]
    congr 1
    apply map_congr_left
    intro i _
    simp only [comp_apply]
    split <;> rfl
  refine ⟨h.types,
    @DistinctKeys.adjust _ _ _ Item.id id (fun i => { i with updateTime := s.now }) (fun _ => rfl) s.list h.unique,
    ?_, h.fits, ?_⟩
  · intro i hi
    obtain ⟨j, hj, rfl⟩ := mem_map.mp hi
    split
    · exact h.bounded j hj
    · exact h.bounded j hj
  · intro t hint ht
    exact (h.totals t hint ht).trans (hkeep t).symm

/-- The condition of `Reports` for one instruction. -/
def Told (type : ℕ → ℤ) (create : ℤ) (stored : Bool) (s : ItemSet) (i : ItemInstr) : Prop :=
  Reports type create { s with todo := i :: s.todo } (.tick stored)

variable {create : ℤ} {stored : Bool} {s' : ItemSet}

theorem exec_get_ok (h : s.Ok type) {id : ℕ} (ht : Told type create stored s (.get id))
    (he : s.exec type create stored (.get id) = .ok s') : s'.Ok type := by
  unfold ItemSet.exec at he
  simp only at he
  cases hf : s.find id with
  | some item =>
    simp only [hf] at he
    obtain ⟨g, -, he⟩ := bind_ok_iff.mp he
    split at he
    · rw [← Except.ok.inj he]
      apply (h.pruned id).push
      intro i hi
      rcases mem_append.mp hi with hi | hi
      · split at hi
        · simp only [mem_cons, not_mem_nil, or_false] at hi
          rcases hi with rfl | rfl
          · trivial
          · exact (by decide : (1 : ℕ) < 2 ^ 32)
        · simp at hi
      · simp only [mem_cons, not_mem_nil, or_false] at hi
        rcases hi with rfl | rfl
        · exact toUnsigned_lt _
        · trivial
    · rw [← Except.ok.inj he]
      exact h.pruned id
  | none =>
    simp only [hf] at he
    obtain ⟨g, hg, he⟩ := bind_ok_iff.mp he
    split at he
    · next hc =>
      -- growth created an item: its type is not counted
      have hty : type id = 0 := by
        by_contra hne
        have := ht hne hf hc.2 g hg
        omega
      rw [← Except.ok.inj he]
      exact @ItemSet.Ok.insert_silent type _ (h.pruned id) ⟨id, toUnsigned g.count, s.now⟩ hf (toUnsigned_lt _) hty
    · rw [← Except.ok.inj he]
      exact h.pruned id

theorem exec_next_ok (h : s.Ok type) {prev : Option ℕ}
    (he : s.exec type create stored (.next prev) = .ok s') : s'.Ok type := by
  unfold ItemSet.exec at he
  simp only at he
  cases hf : s.dlistNext prev with
  | none =>
    simp only [hf] at he
    rw [← Except.ok.inj he]
    exact h
  | some item =>
    simp only [hf] at he
    obtain ⟨g, -, he⟩ := bind_ok_iff.mp he
    split at he
    · rw [← Except.ok.inj he]
      apply (h.pruned item.id).push
      intro i hi
      simp only [mem_cons, not_mem_nil, or_false] at hi
      rcases hi with rfl | rfl
      · exact toUnsigned_lt _
      · trivial
    · rw [← Except.ok.inj he]
      exact h.pruned item.id

theorem exec_addRest_ok (h : s.Ok type) {id limit : ℕ} (hl : limit < 2 ^ 32)
    (ht : Told type create stored s (.addRest id limit))
    (he : s.exec type create stored (.addRest id limit) = .ok s') : s'.Ok type := by
  unfold ItemSet.exec at he
  simp only at he
  cases hf : s.find id with
  | none =>
    simp only [hf] at he
    obtain ⟨g, hg, he⟩ := bind_ok_iff.mp he
    split at he
    · next hst =>
      rw [← Except.ok.inj he]
      apply @ItemSet.Ok.insert type _ (h.pruned id) ⟨id, toUnsigned (limit + g.count), s.now⟩ hf (toUnsigned_lt _)
      intro hty
      obtain ⟨hlt, hg0⟩ := (ht hty).1 hf hst
      have h0 := hg0 g hg
      simp only [h0, toInt, toUnsigned]
      omega
    · rw [← Except.ok.inj he]
      exact h.pruned id
  | some item =>
    simp only [hf] at he
    have hb := h.bounded item (ItemSet.find_mem hf).1
    split at he
    · rw [← Except.ok.inj he]
      apply h.change hf (Nat.mod_lt _ (by decide))
      intro hty
      have hiff := (ht hty).2 item hf
      simp only [toInt]
      omega
    · rw [← Except.ok.inj he]
      exact h

theorem exec_setRest_ok (h : s.Ok type) {id limit : ℕ} (hl : limit < 2 ^ 32)
    (ht : Told type create stored s (.setRest id limit))
    (he : s.exec type create stored (.setRest id limit) = .ok s') : s'.Ok type := by
  unfold ItemSet.exec at he
  simp only at he
  cases hf : s.find id with
  | some item =>
    simp only [hf] at he
    obtain rfl := (ItemSet.find_mem hf).2
    rw [← Except.ok.inj he]
    exact h.changeLimit hf hl fun hty => ht hty item hf
  | none =>
    simp only [hf] at he
    split at he
    · rw [← Except.ok.inj he]
      apply h.push
      intro i hi
      simp only [mem_cons, not_mem_nil, or_false] at hi
      rcases hi with rfl | rfl
      · trivial
      · exact hl
    · rw [← Except.ok.inj he]
      exact h

theorem exec_setLimit_ok (h : s.Ok type) {id limit : ℕ} (hl : limit < 2 ^ 32)
    (ht : Told type create stored s (.setLimit id limit))
    (he : s.exec type create stored (.setLimit id limit) = .ok s') : s'.Ok type := by
  unfold ItemSet.exec at he
  simp only at he
  cases hf : s.find id with
  | some item =>
    simp only [hf] at he
    obtain rfl := (ItemSet.find_mem hf).2
    split at he
    · rw [← Except.ok.inj he]
      exact h
    · rw [← Except.ok.inj he]
      exact h.changeLimit hf hl fun hty => ht hty item hf
  | none =>
    simp only [hf] at he
    rw [← Except.ok.inj he]
    exact h

theorem exec_remove_ok (h : s.Ok type) {id limit : ℕ}
    (he : s.exec type create stored (.remove id limit) = .ok s') : s'.Ok type := by
  unfold ItemSet.exec at he
  simp only at he
  cases hf : s.find id with
  | some item =>
    simp only [hf] at he
    have hb := h.bounded item (ItemSet.find_mem hf).1
    split at he
    · rw [← Except.ok.inj he]
      exact h
    · rw [← Except.ok.inj he]
      apply h.push
      intro i hi
      rw [mem_singleton.mp hi]
      exact lt_of_le_of_lt (Nat.sub_le _ _) hb
  | none =>
    simp only [hf] at he
    rw [← Except.ok.inj he]
    exact h

theorem exec_ok (h : s.Ok type) {i : ItemInstr} (hi : i.Fits) (ht : Told type create stored s i)
    (he : s.exec type create stored i = .ok s') : s'.Ok type := by
  cases i with
  | get id => exact exec_get_ok h ht he
  | next prev => exact exec_next_ok h he
  | addRest id limit => exact exec_addRest_ok h hi ht he
  | setRest id limit => exact exec_setRest_ok h hi ht he
  | setLimit id limit => exact exec_setLimit_ok h hi ht he
  | remove id limit => exact exec_remove_ok h he
  | touch id => exact Except.ok.inj he ▸ h.touch id
  | handlers => exact Except.ok.inj he ▸ h

theorem code_fits (c : ItemCall) : ∀ i ∈ c.code, i.Fits := by
  have hm : ∀ n : ℕ, n % 2 ^ 32 < 2 ^ 32 := fun n => Nat.mod_lt n (by decide)
  cases c with
  | get id => simp [ItemCall.code, ItemInstr.Fits]
  | next prev => simp [ItemCall.code, ItemInstr.Fits]
  | add id limit => simpa [ItemCall.code, ItemInstr.Fits] using hm limit
  | set id limit => simpa [ItemCall.code, ItemInstr.Fits] using hm limit
  | setLimit id limit => simpa [ItemCall.code, ItemInstr.Fits] using hm limit
  | remove id limit => simp [ItemCall.code, ItemInstr.Fits]

theorem itemStep_ok (a : ItemAct) (h : s.Ok type) (hr : Reports type create s a)
    (he : itemStep type create s a = .ok s') : s'.Ok type := by
  cases a with
  | call c =>
    rw [← Except.ok.inj he]
    split
    · exact h.push (code_fits c)
    · exact h
  | tick stored =>
    unfold itemStep at he
    simp only at he
    cases ht : s.todo with
    | nil =>
      simp only [ht] at he
      exact Except.ok.inj he ▸ h
    | cons i rest =>
      simp only [ht] at he
      have hfits := h.fits
      rw [ht] at hfits
      have hrest : ItemSet.Ok type { s with todo := rest } :=
        ⟨h.types, h.unique, h.bounded, fun j hj => hfits j (mem_cons_of_mem i hj), h.totals⟩
      apply exec_ok hrest (hfits i mem_cons_self) _ he
      have hs : ({ s with todo := i :: rest } : ItemSet) = s := by rw [← ht]
      rw [Told, hs]
      exact hr
  | time now =>
    rw [← Except.ok.inj he]
    split
    · exact ⟨h.types, h.unique, h.bounded, h.fits, h.totals⟩
    · exact h

end Steps

theorem mapKey_nonneg {z : ℤ} (h : IsInt z) (hpos : 0 ≤ z) : mapKey z = toUnsigned z := by
  unfold IsInt at h
  unfold mapKey toUnsigned
  omega

theorem itemLoad_totals (htype : ∀ id, IsInt (type id)) {rows : List Item} (t : ℤ) (hint : IsInt t)
    (ht : t ≠ 0) (hrows : ∀ i ∈ rows, 0 ≤ type i.id) : ∀ m3 : ℕ → ℤ,
    rows.foldl (countRow type) m3 (toUnsigned t) = m3 (toUnsigned t) + sumOf (Item.weight type t) rows := by
  induction rows with
  | nil =>
    intro m3
    rw [foldl_nil, sumOf_nil, add_zero]
  | cons cur rows ih =>
    intro m3
    rw [forall_mem_cons] at hrows
    rw [foldl_cons, ih hrows.2, sumOf_cons, ← add_assoc]
    congr 1
    unfold Item.weight countRow
    rw [mapKey_nonneg (htype cur.id) hrows.1]
    by_cases hid : type cur.id = t
    · subst hid
      rw [if_pos ht, update_self, if_pos rfl]
    · rw [if_neg hid, add_zero]
      split
      · exact update_of_ne (fun he => hid (toUnsigned_inj hint (htype cur.id) he).symm) _ _
      · rfl

theorem itemLoad_ok (htype : ∀ id, IsInt (type id)) (grow : ℕ → List ItemGrowInfo) (now : ℤ)
    {rows : List Item} (hu : DistinctKeys Item.id rows) (hb : ∀ i ∈ rows, i.limit < 2 ^ 32)
    (hrows : ∀ i ∈ rows, 0 ≤ type i.id) : (itemLoad type grow now rows).Ok type where
  types := htype
  unique := hu
  bounded := hb
  fits := fun i hi => absurd hi not_mem_nil
  totals := by
    intro t hint ht
    have h := itemLoad_totals type htype t hint ht hrows fun _ => 0
    rw [zero_add] at h
    exact h

/-- From the rows of a player on (one for each id, with 32-bit counts and a type that is not negative), in every
run in which every instruction reports its change, the cached totals are right in every state. -/
theorem item_totals_right (htype : ∀ id, IsInt (type id)) (grow : ℕ → List ItemGrowInfo)
    (create now : ℤ) (rows : List Item) (hu : DistinctKeys Item.id rows) (hb : ∀ i ∈ rows, i.limit < 2 ^ 32)
    (hrows : ∀ i ∈ rows, 0 ≤ type i.id) (acts : List ItemAct)
    (h : Along (itemStep type create) (Reports type create) (itemLoad type grow now rows) acts) :
    Throughout (itemStep type create) (ItemSet.TotalsRight type) (itemLoad type grow now rows) acts :=
  run_throughout (fun _ hok => hok.totals) (fun _ a _ hok hr he => itemStep_ok a hok hr he) acts _
    (itemLoad_ok type htype grow now hu hb hrows) h

theorem item_totals_right_removed :
    ∃ s, run (itemStep (fun _ => 7) 0) (itemLoad (fun _ => 7) (fun _ => []) 0 [⟨5, 10, 0⟩])
        [.call (.remove 5 4), .tick true, .tick true, .tick true] = .ok s ∧
      ItemSet.TotalsRight (fun _ => 7) s ∧ s.m3 7 = 6 := by
  have h := item_totals_right (fun _ => 7) (fun _ => by decide) (fun _ => []) 0 0 [⟨5, 10, 0⟩]
    (nodup_singleton _) (by decide) (by decide) [.call (.remove 5 4), .tick true, .tick true, .tick true]
    (.cons trivial rfl (.cons trivial rfl (.cons (fun _ item hf => by
      obtain rfl := Option.some.inj hf
      decide) rfl (.cons trivial rfl trivial))))
  exact ⟨_, rfl, h.last rfl, rfl⟩

def growthOfThree : ItemGrowInfo := ⟨0, 100, 10, 3, 9, 0⟩

/-- Reading an item the player does not have yet lets nine of it grow, and the total stays zero. -/
theorem item_get_grows_unreported :
    ∃ s, run (itemStep (fun _ => 7) 0) (itemLoad (fun _ => 7) (fun _ => [growthOfThree]) 50 [])
        [.call (.get 5), .tick true] = .ok s ∧
      s.list.map Item.limit = [9] ∧ s.m3 7 = 0 ∧ ¬ ItemSet.TotalsRight (fun _ => 7) s := by
  refine ⟨_, rfl, by decide +kernel, rfl, ?_⟩
  intro h
  exact absurd (h 7 (by decide) (by decide)) (by decide +kernel)

end CServer.Modules
