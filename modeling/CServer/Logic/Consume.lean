import CServer.Modules.Item

/-! # `world/logic/aL.c`: costs that are checked and then consumed

`CheckForConsume` looks whether a player can pay one cost, `CheckAndConsume` pays it. Operations with
several costs check all of them first and consume them afterwards, each against what is there then.

The inventory is what `item_get`, `hero_item_get` and `hero_get` report when the operation begins (growth
on reading included); the quest events raised by a deduction run their own operations and are left out.
Costs are read from the configuration as `int`s and passed as `unsigned int`s.
-/
namespace CServer.Logic
open CServer.Lib CServer.Modules Function List
open Option hiding mem_map mem_map_of_mem

/-! ## The code -/

def retSuccess : ℤ := 0
def retError : ℤ := 1
def retNotEnough : ℤ := 10
def retItemNotEnough : ℤ := 280

def rewardTypeItem : ℕ := 41
def rewardTypeHero : ℕ := 42
def consumeItemPackage : ℕ := 46
def rewardTypeHeroItem : ℕ := 90

def aiMaxId : ℕ := 99999

/-- Counts by id; a hero item also belongs to a hero. `heroes` counts the heroes of a kind. -/
structure Inventory where
  item : ℕ → Option ℕ
  heroItem : ℕ → ℕ → Option ℕ
  heroes : ℕ → ℕ

/-- A cost as it is passed: three `unsigned int`s, of which the value is computed with. -/
structure Cost where
  type : ℕ
  id : ℕ
  value : ℕ
  value_lt : value < 2 ^ 32

variable (inv : Inventory)

def Inventory.heroItemGet (uuid id : ℕ) : Option ℕ :=
  if toInt id ≤ 0 then none else inv.heroItem uuid id

def Inventory.heroItemCount (uuid id : ℕ) : ℕ := (inv.heroItemGet uuid id).getD 0

def Inventory.itemRemove (id limit value : ℕ) : Inventory :=
  { inv with item := update inv.item id (some (limit - value)) }

/-- `hero_item_remove`; the value arrives as an `int`. -/
def Inventory.heroItemRemove (uuid id value : ℕ) : ℤ × Inventory :=
  if toInt value < 0 then (-1, inv)
  else if value = 0 then (0, inv)
  else
    match inv.heroItemGet uuid id with
    | none => (-1, inv)
    | some count =>
      if count < value then (-1, inv)
      else (0, { inv with
        heroItem := update inv.heroItem uuid (update (inv.heroItem uuid) id (some (count - value))) })

def checkForConsume (uuid : ℕ) (c : Cost) : ℤ :=
  if c.type = 0 ∨ c.id = 0 then retSuccess
  else if c.type = rewardTypeItem then
    match inv.item c.id with
    | none => retItemNotEnough
    | some limit => if limit < c.value ∨ limit = 0 then retItemNotEnough else retSuccess
  else if c.type = rewardTypeHeroItem ∧ c.value > 0 then
    if inv.heroItemCount uuid c.id < c.value then retItemNotEnough else retSuccess
  else if c.type = rewardTypeHero ∧ c.value > 0 then
    if inv.heroes c.id = 0 then retNotEnough else retSuccess
  else retError

abbrev ConsumePackages := ℕ → Option (List (ℕ × ℕ × ℤ))

def packageItem (inv : Inventory) (value : ℕ) : List (ℕ × ℕ × ℤ) → Option (ℕ × ℕ × ℕ)
  | [] => none
  | (type, id, itemValue) :: rest =>
    if type = rewardTypeItem then
      match inv.item id with
      | none => packageItem inv value rest
      | some limit =>
        if limit < toUnsigned (itemValue * value) ∨ limit = 0 then packageItem inv value rest
        else some (id, limit, toUnsigned (itemValue * value))
    else packageItem inv value rest

variable (packages : ConsumePackages)

def consumePackage (inv : Inventory) (id value : ℕ) : ℤ × Inventory :=
  match packages id with
  | none => (retError, inv)
  | some items =>
    match packageItem inv value items with
    | none => (retError, inv)
    | some (item, limit, n) => (retSuccess, inv.itemRemove item limit n)

def checkAndConsume (pid : ℕ) (inv : Inventory) (uuid : ℕ) (c : Cost) : ℤ × Inventory :=
  if c.type = 0 ∨ c.id = 0 then (retSuccess, inv)
  else if pid ≤ aiMaxId then (retSuccess, inv)
  else if c.type = rewardTypeItem then
    match inv.item c.id with
    | none => (retItemNotEnough, inv)
    | some limit =>
      if limit < c.value ∨ limit = 0 then (retItemNotEnough, inv)
      else (retSuccess, inv.itemRemove c.id limit c.value)
  else if c.type = rewardTypeHeroItem ∧ c.value > 0 then
    match inv.heroItemRemove uuid c.id c.value with
    | (ret, inv) => if ret ≠ 0 then (retError, inv) else (retSuccess, inv)
  else if c.type = consumeItemPackage ∧ c.value > 0 then consumePackage packages inv c.id c.value
  else (retSuccess, inv)

/-- The loop of checks; `fail` is what the operation returns when one of them does not succeed. -/
def checkAll (fail : ℤ) (inv : Inventory) (uuid : ℕ) : List Cost → ℤ
  | [] => retSuccess
  | c :: cs => if checkForConsume inv uuid c ≠ 0 then fail else checkAll fail inv uuid cs

def consumeAll (packages : ConsumePackages) (pid : ℕ) (fail : ℤ) (uuid : ℕ) : Inventory → List Cost → ℤ × Inventory
  | inv, [] => (retSuccess, inv)
  | inv, c :: cs =>
    match checkAndConsume packages pid inv uuid c with
    | (ret, inv) => if ret ≠ 0 then (fail, inv) else consumeAll packages pid fail uuid inv cs

def checkThenConsume (pid : ℕ) (failCheck failConsume : ℤ) (uuid : ℕ)
    (checked charged : List Cost) (inv : Inventory) : ℤ × Inventory :=
  if checkAll failCheck inv uuid checked ≠ 0 then (failCheck, inv)
  else consumeAll packages pid failConsume uuid inv charged

/-! ### The operations -/

/-- `struct { int type; int id; int value; }`. -/
structure CostConfig where
  type : ℤ
  id : ℤ
  value : ℤ

def CostConfig.pass (c : CostConfig) : Cost :=
  ⟨toUnsigned c.type, toUnsigned c.id, toUnsigned c.value, toUnsigned_lt c.value⟩

def coinId : ℤ := 90002

/-- The costs of `aL_hero_star_up`: those of the next star where it has any, else pieces and coins. -/
def heroStarUpConsumes (consume : List CostConfig) (consumeId piece coin : ℤ) : List CostConfig :=
  if (consume.filter fun c => c.type ≠ 0).isEmpty then
    [⟨rewardTypeItem, consumeId, piece⟩, ⟨rewardTypeItem, coinId, coin⟩]
  else consume.filter fun c => c.type ≠ 0

/-- A cost of `aL_equip_stage_up` for an equip of this level; the product is computed in `unsigned int`. -/
def stageConsume (level : ℤ) (c : CostConfig) (increaseValue : ℤ) : CostConfig :=
  { c with value := c.value + increaseValue * (level - 1) }

/-- A cost of `aL_equip_affix_grow` put into the first slot that holds its kind or none. -/
def addAffixCost (cost : List CostConfig) (c : CostConfig) (count : ℤ) : List CostConfig :=
  match cost with
  | [] => []
  | slot :: rest =>
    if (slot.type = c.type ∧ slot.id = c.id) ∨ slot.type = 0 then
      ⟨c.type, c.id, toInt (slot.value + c.value * count)⟩ :: rest
    else slot :: addAffixCost rest c count

def equipPropertyPoolMax : ℕ := 6
def equipAffixGrowCostCount : ℕ := 2

def affixGrowCost (grown : List CostConfig) (count : ℤ) : List CostConfig :=
  (grown.filter fun c => c.value ≠ 0).foldl (fun cost c => addAffixCost cost c count)
    (List.replicate (equipPropertyPoolMax * equipAffixGrowCostCount) ⟨0, 0, 0⟩)

inductive MultiCost
  | heroStarUp (uuid : ℕ) (consume : List CostConfig) (consumeId piece coin : ℤ)
  | equipStageUp (heroUuid : ℕ) (stage : List (CostConfig × ℤ)) (level : ℤ)
  | equipAffixGrow (grown : List CostConfig) (count : ℤ)
  | pveFight (fightCost : Option CostConfig) (check cost : CostConfig) (consume : Bool)

namespace MultiCost

def uuid : MultiCost → ℕ
  | heroStarUp uuid _ _ _ _ => uuid
  | equipStageUp heroUuid _ _ => heroUuid
  | equipAffixGrow _ _ => 0
  | pveFight _ _ _ _ => 0

def charged : MultiCost → List Cost
  | heroStarUp _ consume consumeId piece coin => (heroStarUpConsumes consume consumeId piece coin).map CostConfig.pass
  | equipStageUp _ stage level => stage.map fun c => (stageConsume level c.1 c.2).pass
  | equipAffixGrow grown count => (affixGrowCost grown count).map CostConfig.pass
  | pveFight fightCost _ cost consume => if consume then (fightCost.toList ++ [cost]).map CostConfig.pass else []

def checked : MultiCost → List Cost
  | pveFight fightCost check cost _ => (fightCost.toList ++ [check, cost]).map CostConfig.pass
  | op => op.charged

def failConsume : MultiCost → ℤ
  | equipStageUp _ _ _ => retError
  | _ => retNotEnough

/-- The part of the operation that deals with its costs. -/
def pay (packages : ConsumePackages) (pid : ℕ) (op : MultiCost) (inv : Inventory) : ℤ × Inventory :=
  checkThenConsume packages pid retNotEnough op.failConsume op.uuid op.checked op.charged inv

end MultiCost

/-! ## Atomicity -/

def due (type id : ℕ) (cs : List Cost) : ℕ :=
  (cs.map fun c => if c.type = type ∧ c.id = id ∧ id ≠ 0 then c.value else 0).sum

structure Deducted (uuid : ℕ) (cs : List Cost) (inv inv' : Inventory) : Prop where
  item : ∀ id, (inv'.item id).getD 0 + due rewardTypeItem id cs = (inv.item id).getD 0
  heroItem : ∀ u id, inv'.heroItemCount u id + (if u = uuid then due rewardTypeHeroItem id cs else 0) =
    inv.heroItemCount u id
  heroes : ∀ id, inv'.heroes id + due rewardTypeHero id cs = inv.heroes id

def Atomic (uuid : ℕ) (cs : List Cost) (inv : Inventory) (r : ℤ × Inventory) : Prop :=
  r.1 = retSuccess ∧ Deducted uuid cs inv r.2 ∨ r.1 ≠ retSuccess ∧ r.2 = inv

def Cost.Void (c : Cost) : Prop := c.type = 0 ∨ c.id = 0

/-- The cost fits in what the costs `pre` before it leave of its item. -/
def Fits (uuid : ℕ) (pre : List Cost) (c : Cost) : Prop :=
  c.Void ∨
    (c.type = rewardTypeItem ∧ due rewardTypeItem c.id pre < (inv.item c.id).getD 0 ∧
      due rewardTypeItem c.id pre + c.value ≤ (inv.item c.id).getD 0) ∨
    (c.type = rewardTypeHeroItem ∧ c.value < 2 ^ 31 ∧
      due rewardTypeHeroItem c.id pre + c.value ≤ inv.heroItemCount uuid c.id)

/-- No cost asks for heroes, and each fits in what the ones before it leave. -/
def Covered (uuid : ℕ) (cs : List Cost) : Prop :=
  ∀ pre c post, cs = pre ++ c :: post → Fits inv uuid pre c

def Cost.Free (c : Cost) : Prop := c.Void ∨ c.value = 0 ∨ c.type = rewardTypeHero

/-- The first cost that takes anything is for 2^31 hero items or more. -/
def Blocked (cs : List Cost) : Prop :=
  ∃ pre c post, cs = pre ++ c :: post ∧ (∀ d ∈ pre, d.Free) ∧ ¬ c.Void ∧ c.type = rewardTypeHeroItem ∧ 2 ^ 31 ≤ c.value

def Checked (uuid : ℕ) (cs : List Cost) : Prop := ∀ c ∈ cs, checkForConsume inv uuid c = retSuccess

/-! ## The inventory while costs are consumed -/

theorem due_nil (type id : ℕ) : due type id [] = 0 := rfl

theorem due_snoc (type id : ℕ) (cs : List Cost) (c : Cost) :
    due type id (cs ++ [c]) = due type id cs + if c.type = type ∧ c.id = id ∧ id ≠ 0 then c.value else 0 := by
  simp only [due, map_append, map_singleton, sum_append, sum_singleton]

/-- The inventory when the costs `pre` are deducted and nothing else has happened. -/
def Inventory.less (uuid : ℕ) (pre : List Cost) : Inventory where
  item := fun id => (inv.item id).map fun n => n - due rewardTypeItem id pre
  heroItem := fun u id => (inv.heroItem u id).map fun n => n - if u = uuid then due rewardTypeHeroItem id pre else 0
  heroes := inv.heroes

theorem less_nil (uuid : ℕ) : inv.less uuid [] = inv := by
  unfold Inventory.less
  simp only [due_nil, Nat.sub_zero, ite_self, Option.map_id_fun', id_eq]

theorem less_heroItemGet (uuid u id : ℕ) (pre : List Cost) :
    (inv.less uuid pre).heroItemGet u id =
      (inv.heroItemGet u id).map fun n => n - if u = uuid then due rewardTypeHeroItem id pre else 0 := by
  unfold Inventory.heroItemGet
  split
  · rfl
  · rfl

theorem less_heroItemCount (uuid u id : ℕ) (pre : List Cost) :
    (inv.less uuid pre).heroItemCount u id =
      inv.heroItemCount u id - if u = uuid then due rewardTypeHeroItem id pre else 0 := by
  unfold Inventory.heroItemCount
  rw [less_heroItemGet]
  cases inv.heroItemGet u id with
  | none => simp
  | some n => rfl

theorem less_snoc_other (uuid : ℕ) (pre : List Cost) {c : Cost}
    (hc : c.Void ∨ c.type ≠ rewardTypeItem ∧ c.type ≠ rewardTypeHeroItem) :
    inv.less uuid (pre ++ [c]) = inv.less uuid pre := by
  have hdue : ∀ type id, type ≠ 0 → (c.type ≠ type ∨ c.Void) → due type id (pre ++ [c]) = due type id pre := by
    intro type id hne h
    rw [due_snoc, if_neg, add_zero]
    intro hh
    rcases h with h | h | h
    · exact h hh.1
    · exact hne (hh.1.symm.trans h)
    · exact hh.2.2 (hh.2.1.symm.trans h)
  unfold Inventory.less
  have h1 : ∀ id, due rewardTypeItem id (pre ++ [c]) = due rewardTypeItem id pre := fun id =>
    hdue _ id (by decide) (hc.elim .inr fun h => .inl h.1)
  have h2 : ∀ id, due rewardTypeHeroItem id (pre ++ [c]) = due rewardTypeHeroItem id pre := fun id =>
    hdue _ id (by decide) (hc.elim .inr fun h => .inl h.2)
  simp only [h1, h2]

section Step
variable {packages : ConsumePackages} {pid : ℕ} (hpid : aiMaxId < pid) {inv : Inventory} {uuid : ℕ} {pre : List Cost} {c : Cost}

theorem consume_void (hc : c.Void) :
    checkAndConsume packages pid (inv.less uuid pre) uuid c = (retSuccess, inv.less uuid (pre ++ [c])) := by
  rw [less_snoc_other inv uuid pre (.inl hc)]
  exact if_pos hc

include hpid

theorem consume_item (hv : ¬ c.Void) (ht : c.type = rewardTypeItem)
    (hfit : due rewardTypeItem c.id pre < (inv.item c.id).getD 0 ∧
      due rewardTypeItem c.id pre + c.value ≤ (inv.item c.id).getD 0) :
    checkAndConsume packages pid (inv.less uuid pre) uuid c = (retSuccess, inv.less uuid (pre ++ [c])) := by
  have hid : c.id ≠ 0 := fun h => hv (.inr h)
  cases hi : inv.item c.id with
  | none =>
    rw [hi] at hfit
    exact absurd hfit.1 (Nat.not_lt_zero _)
  | some n =>
    rw [hi] at hfit
    simp only [getD_some] at hfit
    have hl : (inv.less uuid pre).item c.id = some (n - due rewardTypeItem c.id pre) := by
      simp only [Inventory.less, hi, map_some]
    have hv' : ¬ (c.type = 0 ∨ c.id = 0) := hv
    unfold checkAndConsume
    rw [if_neg hv', if_neg (by omega), if_pos ht, hl]
    simp only
    rw [if_neg (by omega)]
    apply congrArg (Prod.mk retSuccess)
    unfold Inventory.itemRemove Inventory.less
    simp only [Inventory.mk.injEq, and_true]
    constructor
    · funext id
      by_cases he : id = c.id
      · subst he
        rw [update_self, hi, due_snoc, if_pos ⟨ht, rfl, hid⟩, map_some]
        congr 1
        omega
      · rw [update_of_ne he, due_snoc, if_neg (fun h => he h.2.1.symm), add_zero]
    · funext u id
      have hne : ¬ (c.type = rewardTypeHeroItem ∧ c.id = id ∧ id ≠ 0) := fun h => absurd (ht.symm.trans h.1) (by decide)
      rw [due_snoc, if_neg hne, add_zero]

theorem consume_heroItem (hv : ¬ c.Void) (ht : c.type = rewardTypeHeroItem) (h0 : 0 < c.value)
    (hfit : c.value < 2 ^ 31 ∧ due rewardTypeHeroItem c.id pre + c.value ≤ inv.heroItemCount uuid c.id) :
    checkAndConsume packages pid (inv.less uuid pre) uuid c = (retSuccess, inv.less uuid (pre ++ [c])) := by
  have hid : c.id ≠ 0 := fun h => hv (.inr h)
  have hti : ¬ c.type = rewardTypeItem := fun h => absurd (ht.symm.trans h) (by decide)
  cases hi : inv.heroItemGet uuid c.id with
  | none =>
    rw [Inventory.heroItemCount, hi] at hfit
    simp only [getD_none] at hfit
    omega
  | some n =>
    rw [Inventory.heroItemCount, hi, getD_some] at hfit
    have hpos : ¬ toInt c.id ≤ 0 := by
      intro hle
      rw [Inventory.heroItemGet, if_pos hle] at hi
      simp at hi
    have hi' : inv.heroItem uuid c.id = some n := by
      rwa [Inventory.heroItemGet, if_neg hpos] at hi
    have hint : ¬ toInt c.value < 0 := by
      have h2 := hfit.1
      unfold toInt
      omega
    have hl : (inv.less uuid pre).heroItemGet uuid c.id = some (n - due rewardTypeHeroItem c.id pre) := by
      rw [less_heroItemGet, hi, if_pos rfl, map_some]
    have hrem : (inv.less uuid pre).heroItemRemove uuid c.id c.value = (0, inv.less uuid (pre ++ [c])) := by
      unfold Inventory.heroItemRemove
      rw [if_neg hint, if_neg (by omega), hl]
      simp only
      rw [if_neg (by omega)]
      apply congrArg (Prod.mk 0)
      unfold Inventory.less
      simp only [Inventory.mk.injEq, and_true]
      constructor
      · funext id
        have hne : ¬ (c.type = rewardTypeItem ∧ c.id = id ∧ id ≠ 0) := fun h => hti h.1
        rw [due_snoc, if_neg hne, add_zero]
      · funext u id
        by_cases hu : u = uuid
        · subst hu
          rw [update_self]
          by_cases he : id = c.id
          · subst he
            have hc : c.type = rewardTypeHeroItem ∧ c.id = c.id ∧ c.id ≠ 0 := ⟨ht, rfl, hid⟩
            rw [update_self, hi', due_snoc, if_pos hc, map_some]
            simp only [if_true]
            apply congrArg some
            omega
          · have hne : ¬ (c.type = rewardTypeHeroItem ∧ c.id = id ∧ id ≠ 0) := fun h => he h.2.1.symm
            rw [update_of_ne he, due_snoc, if_neg hne, add_zero]
            simp only [if_true]
        · rw [update_of_ne hu, if_neg hu, if_neg hu]
    have hv' : ¬ (c.type = 0 ∨ c.id = 0) := hv
    unfold checkAndConsume
    rw [if_neg hv', if_neg (by omega), if_neg hti, if_pos ⟨ht, h0⟩, hrem]
    rfl

theorem consume_hero (hv : ¬ c.Void) (ht : c.type = rewardTypeHero) :
    checkAndConsume packages pid (inv.less uuid pre) uuid c = (retSuccess, inv.less uuid (pre ++ [c])) := by
  have h1 : c.type ≠ rewardTypeItem := by
    rw [ht]
    decide
  have h2 : c.type ≠ rewardTypeHeroItem := by
    rw [ht]
    decide
  have h3 : c.type ≠ consumeItemPackage := by
    rw [ht]
    decide
  rw [less_snoc_other inv uuid pre (.inr ⟨h1, h2⟩)]
  have hv' : ¬ (c.type = 0 ∨ c.id = 0) := hv
  unfold checkAndConsume
  rw [if_neg hv', if_neg (by omega), if_neg h1, if_neg (fun h => h2 h.1), if_neg (fun h => h3 h.1)]

theorem consume_refused (hc : checkForConsume inv uuid c = retSuccess) (hh : c.type ≠ rewardTypeHero)
    (hfit : ¬ Fits inv uuid pre c) :
    ∃ ret, ret ≠ 0 ∧ checkAndConsume packages pid (inv.less uuid pre) uuid c = (ret, inv.less uuid pre) := by
  obtain ⟨hv, hi, hhi⟩ : ¬ c.Void ∧
      ¬ (c.type = rewardTypeItem ∧ due rewardTypeItem c.id pre < (inv.item c.id).getD 0 ∧
        due rewardTypeItem c.id pre + c.value ≤ (inv.item c.id).getD 0) ∧
      ¬ (c.type = rewardTypeHeroItem ∧ c.value < 2 ^ 31 ∧
        due rewardTypeHeroItem c.id pre + c.value ≤ inv.heroItemCount uuid c.id) := by
    unfold Fits at hfit
    exact ⟨fun h => hfit (.inl h), fun h => hfit (.inr (.inl h)), fun h => hfit (.inr (.inr h))⟩
  have hv' : ¬ (c.type = 0 ∨ c.id = 0) := hv
  unfold checkForConsume at hc
  unfold checkAndConsume
  rw [if_neg hv'] at hc ⊢
  rw [if_neg (by omega)]
  by_cases ht : c.type = rewardTypeItem
  · rw [if_pos ht] at hc ⊢
    simp only [ht, true_and] at hi
    cases hn : inv.item c.id with
    | none =>
      rw [hn] at hc
      exact absurd hc (show ¬ retItemNotEnough = retSuccess by decide)
    | some n =>
      rw [hn, getD_some] at hi
      have hl : (inv.less uuid pre).item c.id = some (n - due rewardTypeItem c.id pre) := by
        simp only [Inventory.less, hn, map_some]
      refine ⟨retItemNotEnough, by decide, ?_⟩
      rw [hl]
      simp only
      rw [if_pos (by omega)]
  · rw [if_neg ht] at hc ⊢
    by_cases ht' : c.type = rewardTypeHeroItem ∧ c.value > 0
    · rw [if_pos ht'] at hc ⊢
      simp only [ht'.1, true_and] at hhi
      have hrem : (inv.less uuid pre).heroItemRemove uuid c.id c.value = (-1, inv.less uuid pre) := by
        unfold Inventory.heroItemRemove
        by_cases hneg : toInt c.value < 0
        · rw [if_pos hneg]
        · have hlt : c.value < 2 ^ 31 := by
            have h2 := c.value_lt
            unfold toInt at hneg
            omega
          rw [if_neg hneg, if_neg (by omega), less_heroItemGet, if_pos rfl]
          cases hn : inv.heroItemGet uuid c.id with
          | none => rfl
          | some n =>
            rw [Inventory.heroItemCount, hn, getD_some] at hhi
            simp only [map_some]
            rw [if_pos (by omega)]
      refine ⟨retError, by decide, ?_⟩
      rw [hrem]
      rfl
    · rw [if_neg ht'] at hc
      rw [if_neg (fun h => hh h.1)] at hc
      exact absurd hc (by decide)

end Step

/-! ## The operation as a whole -/

variable {inv : Inventory}

theorem checked_type {uuid : ℕ} {c : Cost} (hc : checkForConsume inv uuid c = retSuccess)
    (hv : ¬ c.Void) : c.type = rewardTypeItem ∨ (c.type = rewardTypeHeroItem ∧ 0 < c.value) ∨
      (c.type = rewardTypeHero ∧ 0 < c.value) := by
  have hv' : ¬ (c.type = 0 ∨ c.id = 0) := hv
  unfold checkForConsume at hc
  rw [if_neg hv'] at hc
  by_cases h1 : c.type = rewardTypeItem
  · exact .inl h1
  · rw [if_neg h1] at hc
    by_cases h2 : c.type = rewardTypeHeroItem ∧ c.value > 0
    · exact .inr (.inl h2)
    · rw [if_neg h2] at hc
      by_cases h3 : c.type = rewardTypeHero ∧ c.value > 0
      · exact .inr (.inr h3)
      · rw [if_neg h3] at hc
        exact absurd hc (by decide)

theorem checkAll_iff {fail : ℤ} (hf : fail ≠ 0) (inv : Inventory) (uuid : ℕ) (cs : List Cost) :
    checkAll fail inv uuid cs = 0 ↔ Checked inv uuid cs := by
  induction cs with
  | nil => simp [checkAll, Checked, retSuccess]
  | cons c cs ih =>
    unfold checkAll Checked
    rw [forall_mem_cons]
    by_cases hc : checkForConsume inv uuid c = 0
    · rw [if_neg (fun h => h hc)]
      exact ih.trans ⟨fun h => ⟨hc, h⟩, fun h => h.2⟩
    · rw [if_pos hc]
      exact ⟨fun h => absurd h hf, fun h => absurd h.1 hc⟩

/-- How far the loop of deductions gets: to the end, each cost fitting or for a hero, or to the first
cost that is neither. -/
theorem consumeAll_outcome {pid : ℕ} (hpid : aiMaxId < pid) (fail : ℤ)
    (inv : Inventory) (uuid : ℕ) (cs : List Cost) : ∀ pre, Checked inv uuid cs →
    (consumeAll packages pid fail uuid (inv.less uuid pre) cs = (retSuccess, inv.less uuid (pre ++ cs)) ∧
      ∀ mid c post, cs = mid ++ c :: post → Fits inv uuid (pre ++ mid) c ∨ (¬ c.Void ∧ c.type = rewardTypeHero)) ∨
    ∃ mid c post, cs = mid ++ c :: post ∧ ¬ Fits inv uuid (pre ++ mid) c ∧ c.type ≠ rewardTypeHero ∧
      consumeAll packages pid fail uuid (inv.less uuid pre) cs = (fail, inv.less uuid (pre ++ mid)) ∧
      ∀ mid' c' post', mid = mid' ++ c' :: post' →
        Fits inv uuid (pre ++ mid') c' ∨ (¬ c'.Void ∧ c'.type = rewardTypeHero) := by
  induction cs with
  | nil =>
    intro pre _
    left
    refine ⟨by rw [append_nil, consumeAll], ?_⟩
    intro mid c post h
    simp at h
  | cons c cs ih =>
    intro pre hchecked
    obtain ⟨hc, hcs⟩ := forall_mem_cons.mp hchecked
    by_cases hgo : Fits inv uuid pre c ∨ (¬ c.Void ∧ c.type = rewardTypeHero)
    · -- this cost goes through
      have hstep : checkAndConsume packages pid (inv.less uuid pre) uuid c = (retSuccess, inv.less uuid (pre ++ [c])) := by
        by_cases hv : c.Void
        · exact consume_void hv
        · rcases checked_type hc hv with ht | ⟨ht, h0⟩ | ⟨ht, -⟩
          · rcases hgo with (h | ⟨-, hfit⟩ | ⟨ht', -⟩) | ⟨-, hhero⟩
            · exact absurd h hv
            · exact consume_item hpid hv ht hfit
            · exact absurd (ht.symm.trans ht') (by decide)
            · exact absurd (ht.symm.trans hhero) (by decide)
          · rcases hgo with (h | ⟨ht', -⟩ | ⟨-, hfit⟩) | ⟨-, hhero⟩
            · exact absurd h hv
            · exact absurd (ht.symm.trans ht') (by decide)
            · exact consume_heroItem hpid hv ht h0 hfit
            · exact absurd (ht.symm.trans hhero) (by decide)
          · exact consume_hero hpid hv ht
      have hrest : consumeAll packages pid fail uuid (inv.less uuid pre) (c :: cs) =
          consumeAll packages pid fail uuid (inv.less uuid (pre ++ [c])) cs := by
        rw [consumeAll, hstep]
        rfl
      have hsnoc : ∀ mid, pre ++ [c] ++ mid = pre ++ c :: mid := fun mid => by
        rw [append_assoc, singleton_append]
      -- a split of the whole list is this cost or one of the rest
      have hsplit : ∀ mid : List Cost, (∀ mid' c' post', mid = mid' ++ c' :: post' →
          Fits inv uuid (pre ++ [c] ++ mid') c' ∨ (¬ c'.Void ∧ c'.type = rewardTypeHero)) →
          ∀ mid' c' post', c :: mid = mid' ++ c' :: post' →
            Fits inv uuid (pre ++ mid') c' ∨ (¬ c'.Void ∧ c'.type = rewardTypeHero) := by
        intro mid h mid' c' post' he
        cases mid' with
        | nil =>
          obtain ⟨rfl, -⟩ := cons.inj he
          rw [append_nil]
          exact hgo
        | cons d mid' =>
          obtain ⟨rfl, he'⟩ := cons.inj he
          rw [← hsnoc]
          exact h mid' c' post' he'
      rw [hrest]
      rcases ih (pre ++ [c]) hcs with ⟨hrun, hall⟩ | ⟨mid, c₁, post, rfl, hunfit, hnot, hrun, hall⟩
      · left
        exact ⟨by rw [hrun, hsnoc], hsplit cs hall⟩
      · right
        refine ⟨c :: mid, c₁, post, rfl, ?_, hnot, ?_, hsplit mid hall⟩
        · rw [← hsnoc]
          exact hunfit
        · rw [hrun, hsnoc]
    · right
      have hunfit : ¬ Fits inv uuid pre c := fun h => hgo (.inl h)
      have hnot : c.type ≠ rewardTypeHero := by
        intro ht
        by_cases hv : c.Void
        · exact hunfit (.inl hv)
        · exact hgo (.inr ⟨hv, ht⟩)
      obtain ⟨ret, hret, hstep⟩ := @consume_refused packages pid hpid inv uuid pre c hc hnot hunfit
      refine ⟨[], c, cs, rfl, by rwa [append_nil], hnot, ?_, ?_⟩
      · rw [consumeAll, hstep, append_nil]
        exact if_pos hret
      · intro mid' c' post' h
        simp at h

theorem due_pos {type id : ℕ} {cs : List Cost} (h : 0 < due type id cs) :
    ∃ c ∈ cs, c.type = type ∧ c.id = id ∧ id ≠ 0 ∧ 0 < c.value := by
  induction cs with
  | nil => exact absurd h (lt_irrefl 0)
  | cons c cs ih =>
    by_cases hc : (c.type = type ∧ c.id = id ∧ id ≠ 0) ∧ 0 < c.value
    · exact ⟨c, mem_cons_self, hc.1.1, hc.1.2.1, hc.1.2.2, hc.2⟩
    · have h0 : (if c.type = type ∧ c.id = id ∧ id ≠ 0 then c.value else 0) = 0 := by
        split
        · next hk => exact Nat.eq_zero_of_not_pos fun hp => hc ⟨hk, hp⟩
        · rfl
      have hrest : 0 < due type id cs := by
        simp only [due, map_cons, sum_cons, h0, zero_add] at h
        exact h
      obtain ⟨d, hd, hrest⟩ := ih hrest
      exact ⟨d, mem_cons_of_mem c hd, hrest⟩

theorem due_of_mem {type id : ℕ} {cs : List Cost} {c : Cost} (hc : c ∈ cs) (ht : c.type = type) (hid : c.id = id)
    (h0 : id ≠ 0) : c.value ≤ due type id cs := by
  apply single_le_sum (fun _ _ => Nat.zero_le _)
  exact mem_map.mpr ⟨c, hc, if_pos ⟨ht, hid, h0⟩⟩

theorem due_le {uuid : ℕ} {cs : List Cost}
    (hall : ∀ mid c post, cs = mid ++ c :: post → Fits inv uuid mid c ∨ (¬ c.Void ∧ c.type = rewardTypeHero)) :
    (∀ id, due rewardTypeItem id cs ≤ (inv.item id).getD 0) ∧
      ∀ id, due rewardTypeHeroItem id cs ≤ inv.heroItemCount uuid id := by
  induction cs using List.reverseRecOn with
  | nil => exact ⟨fun _ => Nat.zero_le _, fun _ => Nat.zero_le _⟩
  | append_singleton cs c ih =>
    obtain ⟨h1, h2⟩ := ih fun mid c' post he => hall mid c' (post ++ [c]) (by rw [he]; simp)
    have hlast := hall cs c [] rfl
    constructor
    · intro id
      rw [due_snoc]
      split
      · next hk =>
        obtain ⟨ht, rfl, hid⟩ := hk
        rcases hlast with (hv | ⟨-, -, hle⟩ | ⟨ht', -⟩) | ⟨-, hh⟩
        · exact absurd hv (not_or.mpr ⟨by rw [ht]; decide, hid⟩)
        · exact hle
        · exact absurd (ht.symm.trans ht') (by decide)
        · exact absurd (ht.symm.trans hh) (by decide)
      · exact h1 id
    · intro id
      rw [due_snoc]
      split
      · next hk =>
        obtain ⟨ht, rfl, hid⟩ := hk
        rcases hlast with (hv | ⟨ht', -⟩ | ⟨-, -, hle⟩) | ⟨-, hh⟩
        · exact absurd hv (not_or.mpr ⟨by rw [ht]; decide, hid⟩)
        · exact absurd (ht.symm.trans ht') (by decide)
        · exact hle
        · exact absurd (ht.symm.trans hh) (by decide)
      · exact h2 id

theorem less_eq_iff {uuid : ℕ} {cs : List Cost}
    (h1 : ∀ id, due rewardTypeItem id cs ≤ (inv.item id).getD 0)
    (h2 : ∀ id, due rewardTypeHeroItem id cs ≤ inv.heroItemCount uuid id) :
    inv.less uuid cs = inv ↔ ∀ id, due rewardTypeItem id cs = 0 ∧ due rewardTypeHeroItem id cs = 0 := by
  constructor
  · intro he id
    constructor
    · have hi : ((inv.less uuid cs).item id).getD 0 = (inv.item id).getD 0 := by rw [he]
      have hle := h1 id
      cases hn : inv.item id with
      | none =>
        rw [hn] at hle
        exact Nat.le_zero.mp hle
      | some n =>
        simp only [Inventory.less, hn, map_some, getD_some] at hi hle
        omega
    · have hi : (inv.less uuid cs).heroItemCount uuid id = inv.heroItemCount uuid id := by rw [he]
      rw [less_heroItemCount, if_pos rfl] at hi
      have hle := h2 id
      omega
  · intro h0
    unfold Inventory.less
    simp only [fun id => (h0 id).1, fun id => (h0 id).2, ite_self, Nat.sub_zero, Option.map_id_fun', id_eq]

theorem checked_item {uuid : ℕ} {c : Cost} (hc : checkForConsume inv uuid c = retSuccess)
    (hv : ¬ c.Void) (ht : c.type = rewardTypeItem) : 0 < (inv.item c.id).getD 0 ∧ c.value ≤ (inv.item c.id).getD 0 := by
  have hv' : ¬ (c.type = 0 ∨ c.id = 0) := hv
  unfold checkForConsume at hc
  rw [if_neg hv', if_pos ht] at hc
  cases hn : inv.item c.id with
  | none =>
    rw [hn] at hc
    exact absurd hc (show ¬ retItemNotEnough = retSuccess by decide)
  | some n =>
    rw [hn] at hc
    simp only at hc
    by_cases hlow : n < c.value ∨ n = 0
    · rw [if_pos hlow] at hc
      exact absurd hc (by decide)
    · rw [getD_some]
      omega

theorem checked_heroItem {uuid : ℕ} {c : Cost} (hc : checkForConsume inv uuid c = retSuccess)
    (hv : ¬ c.Void) (ht : c.type = rewardTypeHeroItem) (h0 : 0 < c.value) : c.value ≤ inv.heroItemCount uuid c.id := by
  have hv' : ¬ (c.type = 0 ∨ c.id = 0) := hv
  unfold checkForConsume at hc
  rw [if_neg hv', if_neg (fun h => absurd (ht.symm.trans h) (by decide)), if_pos ⟨ht, h0⟩] at hc
  by_contra hlt
  rw [if_pos (by omega)] at hc
  exact absurd hc (by decide)

theorem Fits.cases {uuid : ℕ} {pre : List Cost} {c : Cost} (h : Fits inv uuid pre c) (hv : ¬ c.Void) :
    c.type = rewardTypeItem ∨ (c.type = rewardTypeHeroItem ∧ c.value < 2 ^ 31) := by
  rcases h with h | h | h
  · exact absurd h hv
  · exact .inl h.1
  · exact .inr ⟨h.1, h.2.1⟩

theorem due_free {cs : List Cost} (h : ∀ d ∈ cs, d.Free) (id : ℕ) :
    due rewardTypeItem id cs = 0 ∧ due rewardTypeHeroItem id cs = 0 := by
  have hno : ∀ type, type ≠ 0 → type ≠ rewardTypeHero → due type id cs = 0 := by
    intro type h0 hhero
    by_contra hne
    obtain ⟨c, hc, ht, hid, hid0, hpos⟩ := due_pos (Nat.pos_of_ne_zero hne)
    rcases h c hc with (hv | hv) | hv | hv
    · exact h0 (ht.symm.trans hv)
    · exact hid0 (hid.symm.trans hv)
    · omega
    · exact hhero (ht.symm.trans hv)
  exact ⟨hno _ (by decide) (by decide), hno _ (by decide) (by decide)⟩

theorem deducted_iff {uuid : ℕ} {charged : List Cost} (hcc : Checked inv uuid charged)
    (hall : ∀ mid c post, charged = mid ++ c :: post → Fits inv uuid mid c ∨ (¬ c.Void ∧ c.type = rewardTypeHero)) :
    Deducted uuid charged inv (inv.less uuid charged) ↔ Covered inv uuid charged ∨ Blocked charged := by
  obtain ⟨h1, h2⟩ := due_le hall
  have hheroes : ∀ id, (inv.less uuid charged).heroes id = inv.heroes id := fun _ => rfl
  constructor
  · intro hd
    left
    intro mid c post hcs
    rcases hall mid c post hcs with hfit | ⟨hv, ht⟩
    · exact hfit
    · -- the hero that was due is still there
      have hmem : c ∈ charged := by
        rw [hcs]
        exact mem_append_right _ mem_cons_self
      have hpos : 0 < c.value := by
        rcases checked_type (hcc c hmem) hv with ht' | ⟨ht', -⟩ | ⟨-, h0⟩
        · exact absurd (ht.symm.trans ht') (by decide)
        · exact absurd (ht.symm.trans ht') (by decide)
        · exact h0
      have hdue := due_of_mem hmem ht rfl fun h => hv (.inr h)
      have hkeep := hd.heroes c.id
      rw [hheroes] at hkeep
      omega
  · intro hcond
    have hnohero : ∀ c ∈ charged, ¬ c.Void → c.type ≠ rewardTypeHero := by
      intro c hc hv ht
      obtain ⟨mid, post, hcs⟩ := append_of_mem hc
      rcases hcond with hcov | ⟨pre, c', post', hcs', -, hv', ht', hbig⟩
      · rcases (hcov mid c post hcs).cases hv with h | ⟨h, -⟩
        · exact absurd (ht.symm.trans h) (by decide)
        · exact absurd (ht.symm.trans h) (by decide)
      · -- the refused cost went through as well
        rcases hall pre c' post' hcs' with hfit | ⟨-, h⟩
        · rcases hfit.cases hv' with h | ⟨-, h⟩
          · exact absurd (ht'.symm.trans h) (by decide)
          · omega
        · exact absurd (ht'.symm.trans h) (by decide)
    refine ⟨?_, ?_, ?_⟩
    · intro id
      have hle := h1 id
      cases hn : inv.item id with
      | none =>
        rw [hn] at hle
        simp only [Inventory.less, hn, map_none, getD_none] at hle ⊢
        omega
      | some n =>
        rw [hn, getD_some] at hle
        simp only [Inventory.less, hn, map_some, getD_some]
        omega
    · intro u id
      rw [less_heroItemCount]
      have hle := h2 id
      split
      · next hu =>
        subst hu
        omega
      · omega
    · intro id
      rw [hheroes]
      by_contra hne
      obtain ⟨c, hc, ht, hcid, hid, -⟩ := due_pos (Nat.pos_of_ne_zero fun h0 => hne (by rw [h0]; rfl))
      exact hnohero c hc (not_or.mpr ⟨by rw [ht]; decide, by rw [hcid]; exact hid⟩) ht

/-- Where the cost `c` is refused after `mid`: nothing is taken if and only if the costs before it take
nothing, and then it is refused for its size. -/
theorem refused_iff {uuid : ℕ} {charged mid : List Cost} {c : Cost} {post : List Cost}
    (hcc : Checked inv uuid charged) (hcs : charged = mid ++ c :: post) (hunfit : ¬ Fits inv uuid mid c)
    (hnot : c.type ≠ rewardTypeHero)
    (hall : ∀ mid' c' post', mid = mid' ++ c' :: post' → Fits inv uuid mid' c' ∨ (¬ c'.Void ∧ c'.type = rewardTypeHero)) :
    inv.less uuid mid = inv ↔ Covered inv uuid charged ∨ Blocked charged := by
  obtain ⟨h1, h2⟩ := due_le hall
  rw [less_eq_iff h1 h2]
  have hv : ¬ c.Void := fun h => hunfit (.inl h)
  have hcheck : checkForConsume inv uuid c = retSuccess := hcc c (by rw [hcs]; exact mem_append_right _ mem_cons_self)
  constructor
  · intro h0
    right
    refine ⟨mid, c, post, hcs, ?_, hv, ?_⟩
    · intro d hd
      by_cases hdv : d.Void
      · exact .inl hdv
      · have hdid : d.id ≠ 0 := fun h => hdv (.inr h)
        rcases checked_type (hcc d (by rw [hcs]; exact mem_append_left _ hd)) hdv with ht | ⟨ht, hpos⟩ | ⟨ht, -⟩
        · have hle := due_of_mem hd ht rfl hdid
          rw [(h0 d.id).1] at hle
          exact .inr (.inl (Nat.le_zero.mp hle))
        · have hle := due_of_mem hd ht rfl hdid
          rw [(h0 d.id).2] at hle
          omega
        · exact .inr (.inr ht)
    · rcases checked_type hcheck hv with ht | ⟨ht, hpos⟩ | ⟨ht, -⟩
      · obtain ⟨hlt, hle⟩ := checked_item hcheck hv ht
        exact absurd (.inr (.inl ⟨ht, by rw [(h0 c.id).1]; exact hlt, by rw [(h0 c.id).1, zero_add]; exact hle⟩)) hunfit
      · refine ⟨ht, ?_⟩
        by_contra hsmall
        have hle := checked_heroItem hcheck hv ht hpos
        exact hunfit (.inr (.inr ⟨ht, by omega, by rw [(h0 c.id).2, zero_add]; exact hle⟩))
      · exact absurd ht hnot
  · intro hcond
    rcases hcond with hcov | ⟨pre, c', post', hcs', hfree, hv', ht', hbig⟩
    · exact absurd (hcov mid c post hcs) hunfit
    · -- the refused cost of `Blocked` cannot lie before the one the loop stopped at
      have hsplit : mid ++ c :: post = pre ++ c' :: post' := hcs.symm.trans hcs'
      rcases append_eq_append_iff.mp hsplit with ⟨as, hpre, -⟩ | ⟨bs, hmid, hrest⟩
      · exact fun id => due_free (fun d hd => hfree d (by rw [hpre]; exact mem_append_left _ hd)) id
      · cases bs with
        | nil =>
          rw [append_nil] at hmid
          exact fun id => due_free (fun d hd => hfree d (by rw [← hmid]; exact hd)) id
        | cons b bs =>
          obtain ⟨rfl, -⟩ := cons.inj hrest
          rcases hall pre c' bs hmid with hfit | ⟨-, h⟩
          · rcases hfit.cases hv' with h | ⟨-, h⟩
            · exact absurd (ht'.symm.trans h) (by decide)
            · omega
          · exact absurd (ht'.symm.trans h) (by decide)

/-- The operation is atomic exactly if a check fails, or every cost fits and none is for heroes, or the
first cost that takes anything is one that is refused. -/
theorem checkThenConsume_atomic {pid : ℕ} (hpid : aiMaxId < pid) {failCheck failConsume : ℤ}
    (hf : failCheck ≠ 0) (hf' : failConsume ≠ 0) (uuid : ℕ) (checked charged : List Cost)
    (hsub : ∀ c ∈ charged, c ∈ checked) (inv : Inventory) :
    Atomic uuid charged inv (checkThenConsume packages pid failCheck failConsume uuid checked charged inv) ↔
      ¬ Checked inv uuid checked ∨ Covered inv uuid charged ∨ Blocked charged := by
  unfold checkThenConsume
  by_cases hck : Checked inv uuid checked
  · rw [if_neg (fun h => h ((checkAll_iff hf inv uuid checked).mpr hck))]
    have hcc : Checked inv uuid charged := fun c hc => hck c (hsub c hc)
    have hout := consumeAll_outcome packages hpid failConsume inv uuid charged [] hcc
    rw [less_nil] at hout
    simp only [nil_append] at hout
    have hout' : Atomic uuid charged inv (consumeAll packages pid failConsume uuid inv charged) ↔
        Covered inv uuid charged ∨ Blocked charged := by
      rcases hout with ⟨hrun, hall⟩ | ⟨mid, c, post, hcs, hunfit, hnot, hrun, hall⟩
      · rw [hrun, ← deducted_iff hcc hall]
        exact ⟨fun h => h.elim And.right fun h => absurd rfl h.1, fun h => .inl ⟨rfl, h⟩⟩
      · rw [hrun, ← refused_iff hcc hcs hunfit hnot hall]
        exact ⟨fun h => h.elim (fun h => absurd h.1 hf') And.right, fun h => .inr ⟨hf', h⟩⟩
    rw [hout']
    exact ⟨.inr, fun h => h.resolve_left fun h => h hck⟩
  · rw [if_pos (fun h => hck ((checkAll_iff hf inv uuid checked).mp h))]
    exact ⟨fun _ => .inl hck, fun _ => .inr ⟨hf, rfl⟩⟩

theorem MultiCost.charged_checked (op : MultiCost) : ∀ c ∈ op.charged, c ∈ op.checked := by
  cases op with
  | heroStarUp uuid consume consumeId piece coin => exact fun _ h => h
  | equipStageUp heroUuid stage level => exact fun _ h => h
  | equipAffixGrow grown count => exact fun _ h => h
  | pveFight fightCost check cost consume =>
    intro c hc
    cases consume with
    | false => exact absurd hc not_mem_nil
    | true =>
      obtain ⟨d, hd, rfl⟩ := mem_map.mp hc
      apply mem_map_of_mem
      rcases mem_append.mp hd with hd | hd
      · exact mem_append_left _ hd
      · rw [mem_singleton.mp hd]
        exact mem_append_right _ (mem_cons_of_mem _ mem_cons_self)

/-- For every table of costs and every inventory of a player who is no AI, the operation takes all its
costs or nothing if and only if a check fails, or each cost fits in what the ones before it leave and none
asks for heroes, or the first cost that takes anything is for 2^31 hero items or more. -/
theorem multiCost_atomic (pid : ℕ) (hpid : aiMaxId < pid) (op : MultiCost)
    (inv : Inventory) :
    Atomic op.uuid op.charged inv (op.pay packages pid inv) ↔
      ¬ Checked inv op.uuid op.checked ∨ Covered inv op.uuid op.charged ∨ Blocked op.charged := by
  have hf : op.failConsume ≠ 0 := by
    cases op with
    | equipStageUp heroUuid stage level => exact (show retError ≠ 0 by decide)
    | heroStarUp uuid consume consumeId piece coin => exact (show retNotEnough ≠ 0 by decide)
    | equipAffixGrow grown count => exact (show retNotEnough ≠ 0 by decide)
    | pveFight fightCost check cost consume => exact (show retNotEnough ≠ 0 by decide)
  exact checkThenConsume_atomic packages hpid (by decide) hf op.uuid op.checked op.charged op.charged_checked inv

def tenPieces : Inventory := ⟨fun id => if id = 5 then some 10 else none, fun _ _ => none, fun _ => 0⟩

theorem multiCost_atomic_four_and_six :
    Atomic 0 (MultiCost.heroStarUp 0 [⟨41, 5, 4⟩, ⟨41, 5, 6⟩] 0 0 0).charged tenPieces
      ((MultiCost.heroStarUp 0 [⟨41, 5, 4⟩, ⟨41, 5, 6⟩] 0 0 0).pay (fun _ => none) 100000 tenPieces) := by
  apply (multiCost_atomic (fun _ => none) 100000 (by decide) (.heroStarUp 0 [⟨41, 5, 4⟩, ⟨41, 5, 6⟩] 0 0 0) tenPieces).mpr
  right
  left
  intro pre c post h
  match pre with
  | [] =>
    obtain ⟨rfl, -⟩ := cons.inj h
    exact .inr (.inl (by decide))
  | [d] =>
    obtain ⟨rfl, h'⟩ := cons.inj h
    obtain ⟨rfl, -⟩ := cons.inj h'
    exact .inr (.inl (by decide))
  | d :: d' :: pre =>
    have hlen := congrArg List.length h
    simp [MultiCost.charged, heroStarUpConsumes] at hlen

/-- Six and six of ten pieces: both are there when they are checked, the first six are taken and the
operation fails. -/
theorem multiCost_takes_six_and_fails :
    ((MultiCost.heroStarUp 0 [⟨41, 5, 6⟩, ⟨41, 5, 6⟩] 0 0 0).pay (fun _ => none) 100000 tenPieces).1 = retNotEnough ∧
      ((MultiCost.heroStarUp 0 [⟨41, 5, 6⟩, ⟨41, 5, 6⟩] 0 0 0).pay (fun _ => none) 100000 tenPieces).2.item 5 = some 4 ∧
      ¬ Atomic 0 (MultiCost.heroStarUp 0 [⟨41, 5, 6⟩, ⟨41, 5, 6⟩] 0 0 0).charged tenPieces
        ((MultiCost.heroStarUp 0 [⟨41, 5, 6⟩, ⟨41, 5, 6⟩] 0 0 0).pay (fun _ => none) 100000 tenPieces) := by
  have hret : ((MultiCost.heroStarUp 0 [⟨41, 5, 6⟩, ⟨41, 5, 6⟩] 0 0 0).pay (fun _ => none) 100000 tenPieces).1 =
      retNotEnough := by decide +kernel
  have hitem : ((MultiCost.heroStarUp 0 [⟨41, 5, 6⟩, ⟨41, 5, 6⟩] 0 0 0).pay (fun _ => none) 100000 tenPieces).2.item 5 =
      some 4 := by decide +kernel
  refine ⟨hret, hitem, ?_⟩
  intro h
  rcases h with ⟨h, -⟩ | ⟨-, h⟩
  · rw [hret] at h
    exact absurd h (by decide)
  · rw [h] at hitem
    exact absurd hitem (by decide)

end CServer.Logic
