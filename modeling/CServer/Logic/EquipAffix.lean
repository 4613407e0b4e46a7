import CServer.Lib.Weighted
import CServer.Logic.EquipRules

/-! # `world/logic/aL.c`: the random affixes of a new equip

`affix_pool_choose` goes through a pool twice: it adds up the weights of the entries whose property type is not excluded,
and then looks for the one that a random number falls on. `aL_equip_add` does so for six slots, each of which excludes the
property type it got from the later ones. Type 0 is no property; it marks an empty place among the excluded types, and
affixes of type 0 are never excluded.

`rand` is a stream of numbers.
-/
namespace CServer.Logic
open CServer.Lib CServer.Modules Function List Int

/-! ## The code -/

/-- `min_value` and `max_value` of an affix, or levels; the loader refuses ranges that are empty. -/
structure ValueRange where
  min : ℤ
  max : ℤ
  le : min ≤ max

structure AffixProperty where
  id : ℤ
  type : ℤ
  range : ValueRange

structure AffixPoolItem where
  cfg : AffixProperty
  weight : ℤ

abbrev AffixPools := ℤ → Option (List AffixPoolItem)

abbrev Rand := ℕ → ℕ

def Rand.next (rand : Rand) : Rand := fun n => rand (n + 1)

def ValueRange.rand (range : ValueRange) (rand : Rand) : ℤ × Rand :=
  if range.min = range.max then (range.min, rand)
  else (toInt (range.min + (rand 0 : ℤ).tmod (toInt (range.max - range.min + 1))), rand.next)

/-- The test of both loops, for `exclude[EQUIP_PROPERTY_POOL_MAX]`. -/
def excluded (exclude : ℕ → ℤ) (ite : AffixPoolItem) : Bool :=
  (List.range equipPropertyPoolMax).any fun i => exclude i ≠ 0 ∧ ite.cfg.type = exclude i

def poolWeight (exclude : ℕ → ℤ) : ℤ → List AffixPoolItem → ℤ
  | weight, [] => weight
  | weight, ite :: items =>
    if excluded exclude ite then poolWeight exclude weight items else poolWeight exclude (toInt (weight + ite.weight)) items

def poolPick (exclude : ℕ → ℤ) : ℤ → List AffixPoolItem → Option AffixPoolItem
  | _, [] => none
  | r, ite :: items =>
    if excluded exclude ite then poolPick exclude r items
    else if toInt (r - ite.weight) ≤ 0 then some ite
    else poolPick exclude (toInt (r - ite.weight)) items

def affixPoolChoose (pools : AffixPools) (poolId : ℤ) (exclude : ℕ → ℤ) (rand : Rand) : Option (AffixProperty × ℤ) × Rand :=
  match pools poolId with
  | none => (none, rand)
  | some items =>
    let weight := poolWeight exclude 0 items
    if weight ≤ 0 then (none, rand)
    else
      match poolPick exclude ((rand 0 : ℤ).tmod weight + 1) items with
      | none => (none, rand.next)
      | some ite =>
        let value := ite.cfg.range.rand rand.next
        (some (ite.cfg, value.1), value.2)

structure EquipWithLevel where
  equipId : ℤ
  level : ValueRange

structure EquipWithAffix where
  equipId : ℤ
  abilityPool : ℕ → ℤ

structure NewEquipConfig where
  type : ℤ
  quality : ℤ
  abilityPool : ℕ → ℤ
  init : ValueRange
  levelUpType : ℤ

structure NewEquipTables where
  withLevel : ℤ → Option EquipWithLevel
  withAffix : ℤ → Option EquipWithAffix
  equip : ℤ → Option NewEquipConfig
  pools : AffixPools
  upgrade : ℤ → ℤ → Option ℤ

structure AffixDraw where
  affix : ℕ → EquipAffixInfo
  exclude : ℕ → ℤ
  rand : Rand

/-- One turn of the loop over the slots; `poolId` is that of the slot. -/
def drawSlot (pools : AffixPools) (poolId : ℕ → ℤ) (d : AffixDraw) (i : ℕ) : AffixDraw :=
  if poolId i = 0 then d
  else
    match affixPoolChoose pools (poolId i) d.exclude d.rand with
    | (none, rand) => { d with rand := rand }
    | (some (acfg, value), rand) =>
      { affix := update d.affix i ⟨acfg.id, value, 0⟩
        exclude := update d.exclude i acfg.type
        rand := rand }

def AffixDraw.start (rand : Rand) : AffixDraw := ⟨fun _ => ⟨0, 0, 0⟩, fun _ => 0, rand⟩

def drawSlots (pools : AffixPools) (poolId : ℕ → ℤ) (rand : Rand) : AffixDraw :=
  (List.range equipPropertyPoolMax).foldl (drawSlot pools poolId) (.start rand)

structure NewEquip where
  gid : ℤ
  affix : ℕ → EquipAffixInfo
  exp : ℤ
  id : Option ℤ
  quality : ℤ

/-- The pools of the slots, of the kind of equip that `gid` stands for. -/
structure NewEquipKind where
  gid : ℤ
  cfg : NewEquipConfig
  poolId : ℕ → ℤ

/-- The kind that is added for `gid`, which may stand for one with a level, with other pools, or both. -/
def NewEquipTables.kind (t : NewEquipTables) (gid : ℤ) : Option NewEquipKind :=
  let gid := (t.withLevel gid).elim gid EquipWithLevel.equipId
  let affixPool := (t.withAffix gid).map EquipWithAffix.abilityPool
  let gid := (t.withAffix gid).elim gid EquipWithAffix.equipId
  (t.equip gid).map fun cfg => ⟨gid, cfg, affixPool.getD cfg.abilityPool⟩

def equipAdd (t : NewEquipTables) (gid : ℤ) (rand : Rand) : Option NewEquip × Rand :=
  let level := (t.withLevel gid).elim (0, rand) fun ew => ew.level.rand rand
  match t.kind gid with
  | none => (none, level.2)
  | some kind =>
    let d := drawSlots t.pools kind.poolId level.2
    let level :=
      if level.1 = 0 ∧ (kind.cfg.init.min > 0 ∨ kind.cfg.init.max > 0) then kind.cfg.init.rand d.rand
      else (level.1, d.rand)
    let exp := if level.1 > 0 then (t.upgrade level.1 kind.cfg.levelUpType).getD 0 else 0
    let id := if isEquipType1 kind.cfg.type then some 12 else if isEquipType2 kind.cfg.type then some 11 else none
    (some ⟨kind.gid, d.affix, exp, id, kind.cfg.quality⟩, level.2)

/-! ## What one pool gives -/

section Choose
variable {exclude : ℕ → ℤ} {items : List AffixPoolItem}

def eligible (exclude : ℕ → ℤ) (items : List AffixPoolItem) : List AffixPoolItem :=
  items.filter fun ite => ! excluded exclude ite

theorem mem_eligible {ite : AffixPoolItem} : ite ∈ eligible exclude items ↔ ite ∈ items ∧ excluded exclude ite = false := by
  unfold eligible
  rw [mem_filter, Bool.not_eq_true']

theorem excluded_iff {ite : AffixPoolItem} : excluded exclude ite = true ↔
    ∃ i < equipPropertyPoolMax, exclude i = ite.cfg.type ∧ ite.cfg.type ≠ 0 := by
  unfold excluded
  rw [any_eq_true]
  constructor
  · intro h
    obtain ⟨i, hi, h⟩ := h
    obtain ⟨hne, htype⟩ := of_decide_eq_true h
    exact ⟨i, mem_range.mp hi, htype.symm, htype ▸ hne⟩
  · intro h
    obtain ⟨i, hi, htype, hne⟩ := h
    exact ⟨i, mem_range.mpr hi, decide_eq_true ⟨htype ▸ hne, htype.symm⟩⟩

/-- No weight is negative, and all of them together and the widths of the ranges are `int`s. -/
structure PoolFits (items : List AffixPoolItem) : Prop where
  nonneg : ∀ ite ∈ items, 0 ≤ ite.weight
  weights : sumOf AffixPoolItem.weight items < 2 ^ 31
  ranges : ∀ ite ∈ items, -2 ^ 31 ≤ ite.cfg.range.min ∧ ite.cfg.range.max < 2 ^ 31 ∧
    ite.cfg.range.max - ite.cfg.range.min + 1 < 2 ^ 31

theorem PoolFits.tail {ite : AffixPoolItem} (h : PoolFits (ite :: items)) : PoolFits items where
  nonneg := fun a ha => h.nonneg a (mem_cons_of_mem ite ha)
  weights := by
    have hsum := h.weights
    have hite := h.nonneg ite mem_cons_self
    rw [sumOf_cons] at hsum
    omega
  ranges := fun a ha => h.ranges a (mem_cons_of_mem ite ha)

theorem poolWeight_eligible (h : PoolFits items) {w : ℤ} (hw : 0 ≤ w) (hsum : w + sumOf AffixPoolItem.weight items < 2 ^ 31) :
    poolWeight exclude w items = w + sumOf AffixPoolItem.weight (eligible exclude items) := by
  induction items generalizing w with
  | nil => rw [poolWeight, eligible, filter_nil, sumOf_nil, add_zero]
  | cons ite items ih =>
    have hite := h.nonneg ite mem_cons_self
    have hrest : 0 ≤ sumOf AffixPoolItem.weight items := sumOf_nonneg h.tail.nonneg
    rw [sumOf_cons] at hsum
    rw [poolWeight, eligible, filter_cons]
    cases excluded exclude ite with
    | true => exact ih h.tail hw (by omega)
    | false =>
      rw [if_neg Bool.false_ne_true, if_pos Bool.not_false, sumOf_cons, toInt_of_int (by omega) (by omega),
        ih h.tail (by omega) (by omega), ← add_assoc]
      rfl

theorem poolPick_eligible (h : PoolFits items) {r : ℤ} (hpos : 0 < r) (hr : r < 2 ^ 31) :
    poolPick exclude r items = ticket AffixPoolItem.weight r (eligible exclude items) := by
  induction items generalizing r with
  | nil => rfl
  | cons ite items ih =>
    have hite := h.nonneg ite mem_cons_self
    have hrest : 0 ≤ sumOf AffixPoolItem.weight items := sumOf_nonneg h.tail.nonneg
    have hsum := h.weights
    rw [sumOf_cons] at hsum
    rw [poolPick, eligible, filter_cons]
    cases excluded exclude ite with
    | true => exact ih h.tail hpos hr
    | false =>
      rw [if_neg Bool.false_ne_true, if_pos Bool.not_false, ticket, toInt_of_int (by omega) (by omega)]
      by_cases hstop : r - ite.weight ≤ 0
      · rw [if_pos hstop, if_pos hstop]
      · rw [if_neg hstop, if_neg hstop, ih h.tail (by omega) (by omega)]
        rfl

theorem poolPick_mem {r : ℤ} {ite : AffixPoolItem} (h : poolPick exclude r items = some ite) :
    ite ∈ items ∧ excluded exclude ite = false := by
  induction items generalizing r with
  | nil => cases h
  | cons a items ih =>
    rw [poolPick] at h
    split at h
    · exact (ih h).imp_left (mem_cons_of_mem a)
    case isFalse hout =>
      split at h
      · rw [← Option.some.inj h]
        exact ⟨mem_cons_self, eq_false_of_ne_true hout⟩
      · exact (ih h).imp_left (mem_cons_of_mem a)

theorem rand_within (range : ValueRange) (rand : Rand)
    (h : -2 ^ 31 ≤ range.min ∧ range.max < 2 ^ 31 ∧ range.max - range.min + 1 < 2 ^ 31) :
    range.min ≤ (range.rand rand).1 ∧ (range.rand rand).1 ≤ range.max := by
  have hle := range.le
  obtain ⟨hmin, hmax, hwidth⟩ := h
  unfold ValueRange.rand
  split
  case isTrue heq => exact ⟨le_refl _, le_of_eq heq⟩
  case isFalse hne =>
    rw [toInt_of_int (by omega) hwidth, tmod_eq_emod_of_nonneg (natCast_nonneg _)]
    have hpos : 0 < range.max - range.min + 1 := by omega
    have hlow := emod_nonneg (rand 0 : ℤ) (ne_of_gt hpos)
    have hhigh := emod_lt_of_pos (rand 0 : ℤ) hpos
    rw [toInt_of_int (by omega) (by omega)]
    omega

theorem poolPick_some (hfits : PoolFits items) (h : 0 < poolWeight exclude 0 items) (n : ℕ) :
    ∃ ite, poolPick exclude ((n : ℤ).tmod (poolWeight exclude 0 items) + 1) items = some ite ∧ 0 < ite.weight := by
  have hsum := hfits.weights
  have hweight := @poolWeight_eligible exclude items hfits 0 (le_refl 0) (by omega)
  have hle : sumOf AffixPoolItem.weight (eligible exclude items) ≤ sumOf AffixPoolItem.weight items :=
    sumOf_filter_le _ hfits.nonneg
  rw [tmod_eq_emod_of_nonneg (natCast_nonneg n)]
  have hlow := emod_nonneg (n : ℤ) (ne_of_gt h)
  have hhigh := emod_lt_of_pos (n : ℤ) h
  have hpos : 0 < (n : ℤ) % poolWeight exclude 0 items + 1 := by omega
  rw [poolPick_eligible hfits hpos (by omega)]
  obtain ⟨ite, hite⟩ := ticket_some hpos (show _ ≤ sumOf AffixPoolItem.weight (eligible exclude items) by omega)
  exact ⟨ite, hite, ticket_weight hpos hite⟩

variable {pools : AffixPools} {poolId : ℤ} {rand rand' : Rand}

/-- What a pool gives is an affix of it, of no excluded type. -/
theorem affixPoolChoose_mem {acfg : AffixProperty} {value : ℤ}
    (h : affixPoolChoose pools poolId exclude rand = (some (acfg, value), rand')) :
    ∃ items ite, pools poolId = some items ∧ ite ∈ items ∧ ite.cfg = acfg ∧ excluded exclude ite = false := by
  unfold affixPoolChoose at h
  cases hpool : pools poolId with
  | none =>
    rw [hpool] at h
    cases h
  | some items =>
    rw [hpool] at h
    simp only at h
    split at h
    · cases h
    · split at h
      · cases h
      case h_2 ite hpick =>
        obtain ⟨hmem, hout⟩ := poolPick_mem hpick
        exact ⟨items, ite, rfl, hmem, congrArg Prod.fst (Option.some.inj (congrArg Prod.fst h)), hout⟩

/-- An affix that a pool gives has a positive weight and a value in its range. -/
theorem affixPoolChoose_some {acfg : AffixProperty} {value : ℤ}
    (hfits : ∀ items, pools poolId = some items → PoolFits items)
    (h : affixPoolChoose pools poolId exclude rand = (some (acfg, value), rand')) :
    ∃ items ite, pools poolId = some items ∧ ite ∈ items ∧ ite.cfg = acfg ∧ excluded exclude ite = false ∧
      0 < ite.weight ∧ acfg.range.min ≤ value ∧ value ≤ acfg.range.max := by
  unfold affixPoolChoose at h
  cases hpool : pools poolId with
  | none =>
    rw [hpool] at h
    cases h
  | some items =>
    rw [hpool] at h
    simp only at h
    split at h
    · cases h
    case isFalse hweight =>
      obtain ⟨ite, hpick, hpos⟩ := poolPick_some (hfits items hpool) (not_le.mp hweight) (rand 0)
      rw [hpick] at h
      obtain ⟨hchosen, -⟩ := Prod.mk.inj h
      obtain ⟨rfl, rfl⟩ := Prod.mk.inj (Option.some.inj hchosen)
      obtain ⟨hmem, hout⟩ := poolPick_mem hpick
      exact ⟨items, ite, rfl, hmem, rfl, hout, hpos, rand_within _ _ ((hfits items hpool).ranges ite hmem)⟩

theorem affixPoolChoose_none (hfits : ∀ items, pools poolId = some items → PoolFits items)
    (h : affixPoolChoose pools poolId exclude rand = (none, rand')) :
    pools poolId = none ∨ ∃ items, pools poolId = some items ∧ ∀ ite ∈ items, 0 < ite.weight → excluded exclude ite = true := by
  unfold affixPoolChoose at h
  cases hpool : pools poolId with
  | none => exact .inl rfl
  | some items =>
    rw [hpool] at h
    simp only at h
    have hitems := hfits items hpool
    split at h
    case isTrue hweight =>
      refine .inr ⟨items, rfl, fun ite hite hpos => ?_⟩
      by_contra hin
      have hsum := hitems.weights
      rw [poolWeight_eligible hitems (le_refl 0) (by omega), zero_add] at hweight
      have hzero := weights_zero (fun a ha => hitems.nonneg a (mem_eligible.mp ha).1) hweight ite
        (mem_eligible.mpr ⟨hite, eq_false_of_ne_true hin⟩)
      omega
    case isFalse hweight =>
      obtain ⟨ite, hpick, -⟩ := poolPick_some hitems (not_le.mp hweight) (rand 0)
      rw [hpick] at h
      cases h

end Choose

/-! ## What the slots get -/

section Slots
variable {pools : AffixPools} {poolId : ℕ → ℤ} {chosen : ℕ → Option AffixPoolItem}

/-- The property type of what a slot got; an empty slot has none. -/
def chosenType (chosen : ℕ → Option AffixPoolItem) (i : ℕ) : ℤ := (chosen i).elim 0 fun ite => ite.cfg.type

/-- The slot got this entry: it is one of its own pool, with a positive weight, and the value is one of its range. -/
structure Got (pools : AffixPools) (poolId : ℤ) (ite : AffixPoolItem) (info : EquipAffixInfo) : Prop where
  pool : ∃ items, pools poolId = some items ∧ ite ∈ items
  weight : 0 < ite.weight
  id : info.id = ite.cfg.id
  value : ite.cfg.range.min ≤ info.value ∧ info.value ≤ ite.cfg.range.max

/-- There was nothing for slot `i`: it has no pool, or all that has a weight in it is of a type that was taken before. -/
def Left (pools : AffixPools) (poolId : ℤ) (chosen : ℕ → Option AffixPoolItem) (i : ℕ) : Prop :=
  poolId = 0 ∨ pools poolId = none ∨ ∃ items, pools poolId = some items ∧
    ∀ ite ∈ items, 0 < ite.weight → ∃ j < i, chosenType chosen j = ite.cfg.type ∧ ite.cfg.type ≠ 0

/-- The first `n` slots have what was chosen for them, and no property type twice. -/
structure Drawn (pools : AffixPools) (poolId : ℕ → ℤ) (n : ℕ) (chosen : ℕ → Option AffixPoolItem)
    (affix : ℕ → EquipAffixInfo) : Prop where
  got : ∀ i < n, ∀ ite, chosen i = some ite → Got pools (poolId i) ite (affix i)
  empty : ∀ i < n, chosen i = none → affix i = ⟨0, 0, 0⟩ ∧ Left pools (poolId i) chosen i
  distinct : ∀ i j, i < j → j < n → chosenType chosen i = chosenType chosen j → chosenType chosen i = 0

/-- The loop before slot `n`: the later slots are still empty, and what was chosen is excluded. -/
structure Drawing (pools : AffixPools) (poolId : ℕ → ℤ) (n : ℕ) (chosen : ℕ → Option AffixPoolItem) (d : AffixDraw) :
    Prop where
  drawn : Drawn pools poolId n chosen d.affix
  exclude : ∀ i, d.exclude i = chosenType chosen i
  later : ∀ i, n ≤ i → chosen i = none ∧ d.affix i = ⟨0, 0, 0⟩

theorem drawing_start (rand : Rand) : Drawing pools poolId 0 (fun _ => none) (.start rand) where
  drawn :=
    { got := fun i hi => absurd hi (Nat.not_lt_zero i)
      empty := fun i hi => absurd hi (Nat.not_lt_zero i)
      distinct := fun _ j _ hj => absurd hj (Nat.not_lt_zero j) }
  exclude _ := rfl
  later _ _ := ⟨rfl, rfl⟩

variable {n : ℕ} {d : AffixDraw}

theorem Drawing.excluded_iff (h : Drawing pools poolId n chosen d) (hn : n < equipPropertyPoolMax) {ite : AffixPoolItem} :
    excluded d.exclude ite = true ↔ ∃ j < n, chosenType chosen j = ite.cfg.type ∧ ite.cfg.type ≠ 0 := by
  rw [CServer.Logic.excluded_iff]
  constructor
  · intro hex
    obtain ⟨j, -, htype, hne⟩ := hex
    rw [h.exclude] at htype
    refine ⟨j, ?_, htype, hne⟩
    by_contra hlate
    rw [chosenType, (h.later j (not_lt.mp hlate)).1] at htype
    exact hne htype.symm
  · intro hex
    obtain ⟨j, hj, htype, hne⟩ := hex
    exact ⟨j, hj.trans hn, (h.exclude j).trans htype, hne⟩

theorem Drawing.skip (h : Drawing pools poolId n chosen d) (hleft : Left pools (poolId n) chosen n) (rand : Rand) :
    Drawing pools poolId (n + 1) chosen { d with rand := rand } := by
  obtain ⟨hnone, hempty⟩ := h.later n (le_refl n)
  have hcases : ∀ {i}, i < n + 1 → i < n ∨ i = n := fun hi => Nat.lt_succ_iff_lt_or_eq.mp hi
  refine ⟨⟨?_, ?_, ?_⟩, h.exclude, fun i hi => h.later i (Nat.le_of_succ_le hi)⟩
  · intro i hi ite hite
    obtain hlt | rfl := hcases hi
    · exact h.drawn.got i hlt ite hite
    · cases hnone.symm.trans hite
  · intro i hi hi0
    obtain hlt | rfl := hcases hi
    · exact h.drawn.empty i hlt hi0
    · exact ⟨hempty, hleft⟩
  · intro i j hij hj heq
    obtain hlt | rfl := hcases hj
    · exact h.drawn.distinct i j hij hlt heq
    · rw [heq, chosenType, hnone]
      rfl

theorem Drawing.fill (h : Drawing pools poolId n chosen d) (hn : n < equipPropertyPoolMax) {ite : AffixPoolItem}
    {info : EquipAffixInfo} (hgot : Got pools (poolId n) ite info) (hnew : excluded d.exclude ite = false) (rand : Rand) :
    Drawing pools poolId (n + 1) (update chosen n (some ite))
      ⟨update d.affix n info, update d.exclude n ite.cfg.type, rand⟩ := by
  have hcases : ∀ {i}, i < n + 1 → i < n ∨ i = n := fun hi => Nat.lt_succ_iff_lt_or_eq.mp hi
  have hold : ∀ i, i ≠ n → update chosen n (some ite) i = chosen i := fun i hi => update_of_ne hi _ _
  have htype : ∀ i, i ≠ n → chosenType (update chosen n (some ite)) i = chosenType chosen i := by
    intro i hi
    rw [chosenType, hold i hi, chosenType]
  have htypeN : chosenType (update chosen n (some ite)) n = ite.cfg.type := by
    rw [chosenType, update_self]
    rfl
  have haffix : ∀ i, i ≠ n → update d.affix n info i = d.affix i := fun i hi => update_of_ne hi _ _
  refine ⟨⟨?_, ?_, ?_⟩, ?_, ?_⟩
  · intro i hi it hit
    obtain hlt | rfl := hcases hi
    · rw [hold i (Nat.ne_of_lt hlt)] at hit
      simp only [haffix i (Nat.ne_of_lt hlt)]
      exact h.drawn.got i hlt it hit
    · simp only [update_self] at hit ⊢
      rw [← Option.some.inj hit]
      exact hgot
  · intro i hi hi0
    obtain hlt | rfl := hcases hi
    · rw [hold i (Nat.ne_of_lt hlt)] at hi0
      obtain ⟨hempty, hleft⟩ := h.drawn.empty i hlt hi0
      simp only [haffix i (Nat.ne_of_lt hlt)]
      refine ⟨hempty, hleft.imp_right (Or.imp_right fun hex => ?_)⟩
      obtain ⟨items, hpool, hex⟩ := hex
      refine ⟨items, hpool, fun it hit hpos => ?_⟩
      obtain ⟨j, hj, heq, hne⟩ := hex it hit hpos
      exact ⟨j, hj, (htype j (Nat.ne_of_lt (hj.trans hlt))).trans heq, hne⟩
    · rw [update_self] at hi0
      cases hi0
  · intro i j hij hj heq
    obtain hlt | rfl := hcases hj
    · rw [htype i (Nat.ne_of_lt (hij.trans hlt)), htype j (Nat.ne_of_lt hlt)] at heq
      rw [htype i (Nat.ne_of_lt (hij.trans hlt))]
      exact h.drawn.distinct i j hij hlt heq
    · rw [htypeN] at heq
      by_contra hne
      have hin := (h.excluded_iff hn).mpr ⟨i, hij, (htype i (Nat.ne_of_lt hij)).symm.trans heq, heq ▸ hne⟩
      cases hnew.symm.trans hin
  · intro i
    by_cases hi : i = n
    · simp only [hi, update_self, htypeN]
    · simp only [update_of_ne hi, htype i hi]
      exact h.exclude i
  · intro i hi
    have hne : i ≠ n := Nat.ne_of_gt hi
    obtain ⟨hnone, hempty⟩ := h.later i (Nat.le_of_succ_le hi)
    exact ⟨(hold i hne).trans hnone, (haffix i hne).trans hempty⟩

theorem drawSlot_drawn (hfits : ∀ id items, pools id = some items → PoolFits items)
    (h : Drawing pools poolId n chosen d) (hn : n < equipPropertyPoolMax) :
    ∃ chosen', Drawing pools poolId (n + 1) chosen' (drawSlot pools poolId d n) := by
  unfold drawSlot
  split
  case isTrue hzero => exact ⟨chosen, h.skip (.inl hzero) d.rand⟩
  case isFalse =>
    cases hchoose : affixPoolChoose pools (poolId n) d.exclude d.rand with
    | mk choice rand =>
      cases choice with
      | none =>
        refine ⟨chosen, h.skip (.inr ?_) rand⟩
        refine (affixPoolChoose_none (hfits (poolId n)) hchoose).imp_right fun hex => ?_
        obtain ⟨items, hpool, hex⟩ := hex
        exact ⟨items, hpool, fun ite hite hpos => (h.excluded_iff hn).mp (hex ite hite hpos)⟩
      | some choice =>
        obtain ⟨acfg, value⟩ := choice
        obtain ⟨items, ite, hpool, hmem, rfl, hnew, hpos, hrange⟩ := affixPoolChoose_some (hfits (poolId n)) hchoose
        exact ⟨_, h.fill hn ⟨⟨items, hpool, hmem⟩, hpos, rfl, hrange⟩ hnew rand⟩

theorem drawSlots_drawn (hfits : ∀ id items, pools id = some items → PoolFits items) (rand : Rand) :
    ∃ chosen, Drawn pools poolId equipPropertyPoolMax chosen (drawSlots pools poolId rand).affix := by
  have hloop : ∀ n ≤ equipPropertyPoolMax,
      ∃ chosen, Drawing pools poolId n chosen ((List.range n).foldl (drawSlot pools poolId) (.start rand)) := by
    intro n
    induction n with
    | zero => exact fun _ => ⟨_, drawing_start rand⟩
    | succ n ih =>
      intro hn
      obtain ⟨chosen, h⟩ := ih (Nat.le_of_succ_le hn)
      rw [range_succ, foldl_append]
      exact drawSlot_drawn hfits h hn
  obtain ⟨chosen, h⟩ := hloop equipPropertyPoolMax (le_refl _)
  exact ⟨chosen, h.drawn⟩

end Slots

/-- For all tables whose weights are not negative and fit in an `int`, and all random numbers: every affix of a new equip is
one of its slot's pool, with a positive weight and a value in its range, no two have the same property type unless that is
0, and a slot is empty only where there was nothing for it. -/
theorem equipAdd_affixes (t : NewEquipTables) (gid : ℤ) (rand : Rand) (equip : NewEquip)
    (hfits : ∀ id items, t.pools id = some items → PoolFits items)
    (hadd : (equipAdd t gid rand).1 = some equip) :
    ∃ kind chosen, t.kind gid = some kind ∧ Drawn t.pools kind.poolId equipPropertyPoolMax chosen equip.affix := by
  unfold equipAdd at hadd
  cases hkind : t.kind gid with
  | none =>
    rw [hkind] at hadd
    cases hadd
  | some kind =>
    rw [hkind] at hadd
    simp only at hadd
    rw [← Option.some.inj hadd]
    obtain ⟨chosen, h⟩ := @drawSlots_drawn t.pools kind.poolId hfits
      ((t.withLevel gid).elim (0, rand) fun ew => ew.level.rand rand).2
    exact ⟨kind, chosen, rfl, h⟩

/-- Two slots with one pool, of an affix with property type `type`. -/
def twoSlots (type : ℤ) : NewEquipTables where
  withLevel := fun _ => none
  withAffix := fun _ => none
  equip := fun gid => if gid = 1 then some ⟨1, 3, fun i => if i < 2 then 5 else 0, ⟨0, 0, le_refl 0⟩, 0⟩ else none
  pools := fun id => if id = 5 then some [⟨⟨7, type, 10, 20, by decide⟩, 4⟩] else none
  upgrade := fun _ _ => none

theorem twoSlots_fits {type id : ℤ} {items : List AffixPoolItem} (h : (twoSlots type).pools id = some items) :
    PoolFits items := by
  unfold twoSlots at h
  simp only at h
  split at h
  · rw [← Option.some.inj h]
    exact ⟨by simp, by simp [sumOf], by simp⟩
  · cases h

theorem twoSlots_type {type id : ℤ} {items : List AffixPoolItem} (h : (twoSlots type).pools id = some items) :
    ∀ ite ∈ items, ite.cfg.type = type := by
  unfold twoSlots at h
  simp only at h
  split at h
  · rw [← Option.some.inj h]
    intro ite hite
    rw [mem_singleton.mp hite]
  · cases h

theorem equipAdd_affixes_eight : ∃ equip, (equipAdd (twoSlots 8) 1 fun _ => 3).1 = some equip ∧
    (equip.affix 0).id = 7 ∧ (equip.affix 1).id = 0 ∧ ∃ kind chosen, (twoSlots 8).kind 1 = some kind ∧
      Drawn (twoSlots 8).pools kind.poolId equipPropertyPoolMax chosen equip.affix := by
  refine ⟨_, rfl, by decide +kernel, by decide +kernel, ?_⟩
  exact equipAdd_affixes (twoSlots 8) 1 (fun _ => 3) _ (fun _ _ => twoSlots_fits) rfl

/-- An affix without a property goes to both slots, so not all that is chosen has a property type of its own. -/
theorem equipAdd_repeats_zero : ∃ equip, (equipAdd (twoSlots 0) 1 fun _ => 3).1 = some equip ∧
    (equip.affix 0).id = 7 ∧ (equip.affix 1).id = 7 ∧
      ¬ ∃ kind chosen, (twoSlots 0).kind 1 = some kind ∧
        Drawn (twoSlots 0).pools kind.poolId equipPropertyPoolMax chosen equip.affix ∧
        ∀ i j, i < j → j < equipPropertyPoolMax → chosen i ≠ none → chosen j ≠ none →
          chosenType chosen i ≠ chosenType chosen j ∧ chosenType chosen i ≠ 0 := by
  have hfirst : ∀ equip, (equipAdd (twoSlots 0) 1 fun _ => 3).1 = some equip →
      (equip.affix 0).id = 7 ∧ (equip.affix 1).id = 7 := by
    intro equip h
    rw [← Option.some.inj h]
    exact ⟨by decide +kernel, by decide +kernel⟩
  cases hadd : (equipAdd (twoSlots 0) 1 fun _ => 3).1 with
  | none => exact absurd hadd (by decide +kernel)
  | some equip =>
    obtain ⟨h0, h1⟩ := hfirst equip hadd
    refine ⟨equip, rfl, h0, h1, fun h => ?_⟩
    obtain ⟨kind, chosen, -, hdrawn, hapart⟩ := h
    have hsome : ∀ i < equipPropertyPoolMax, (equip.affix i).id = 7 → chosen i ≠ none := by
      intro i hi hid hnone
      rw [(hdrawn.empty i hi hnone).1] at hid
      exact absurd hid (by decide)
    have hchosen := hsome 0 (by decide) h0
    refine (hapart 0 1 (by decide) (by decide) hchosen (hsome 1 (by decide) h1)).2 ?_
    obtain ⟨ite, hite⟩ := Option.ne_none_iff_exists'.mp hchosen
    obtain ⟨items, hpool, hmem⟩ := (hdrawn.got 0 (by decide) ite hite).pool
    rw [chosenType, hite]
    exact twoSlots_type hpool ite hmem

end CServer.Logic
