import CServer.Logic.EquipRules

/-! # `world/logic/aL.c`: what is paid before an operation fails

`CheckAndConsume` pays one cost. An operation that pays first and looks at the rest afterwards keeps what it took when
the rest fails, so what matters is whether a cost that goes through takes anything (`Costly`): costs of AI players,
void costs and those of types that are not consumed do not.
-/
namespace CServer.Logic
open CServer.Lib CServer.Modules List Function
open Option hiding mem_map or or_self

variable {packages : ConsumePackages} {pid : ℕ} {inv : Inventory} {uuid : ℕ} {c : Cost}

/-- What a cost takes is there: so many items, so many items of a hero, or the items of a package. -/
def Cost.Taken (packages : ConsumePackages) (inv : Inventory) (uuid : ℕ) (c : Cost) : Prop :=
  c.type = rewardTypeItem ∧ (∃ limit, inv.item c.id = some limit ∧ c.value ≤ limit) ∨
    c.type = rewardTypeHeroItem ∧ c.value < 2 ^ 31 ∧ c.value ≤ inv.heroItemCount uuid c.id ∨
    c.type = consumeItemPackage ∧ ∃ items item limit n, packages c.id = some items ∧
      packageItem inv c.value items = some (item, limit, n) ∧ 0 < n

structure Costly (packages : ConsumePackages) (pid : ℕ) (inv : Inventory) (uuid : ℕ) (c : Cost) : Prop where
  played : aiMaxId < pid
  real : ¬ c.Void
  pos : 0 < c.value
  taken : c.Taken packages inv uuid

/-! ## One cost -/

def Changed (inv : Inventory) (r : ℤ × Inventory) : Prop := r.1 = retSuccess ∧ r.2 ≠ inv

theorem itemRemove_ne {id limit value : ℕ} (h : inv.item id = some limit) (hle : value ≤ limit) (hpos : 0 < value) :
    inv.itemRemove id limit value ≠ inv := by
  intro heq
  have hitem := congrArg (fun i => i.item id) heq
  simp only [Inventory.itemRemove, update_self, h, some.injEq] at hitem
  omega

theorem itemRemove_zero {id limit : ℕ} (h : inv.item id = some limit) : inv.itemRemove id limit 0 = inv := by
  rw [Inventory.itemRemove, Nat.sub_zero, ← h, update_eq_self]

theorem itemRemove_changed {id limit value : ℕ} (h : inv.item id = some limit) (hle : value ≤ limit) :
    Changed inv (retSuccess, inv.itemRemove id limit value) ↔ 0 < value := by
  constructor
  · intro hr
    exact Nat.pos_of_ne_zero fun h0 => hr.2 (h0 ▸ itemRemove_zero h)
  · exact fun hpos => ⟨rfl, itemRemove_ne h hle hpos⟩

theorem heroItemRemove_cases {id value : ℕ} (hlt : value < 2 ^ 32) (hpos : 0 < value) :
    (value < 2 ^ 31 ∧ value ≤ inv.heroItemCount uuid id ∧ (inv.heroItemRemove uuid id value).1 = 0 ∧
        (inv.heroItemRemove uuid id value).2 ≠ inv) ∨
      ¬ (value < 2 ^ 31 ∧ value ≤ inv.heroItemCount uuid id) ∧ (inv.heroItemRemove uuid id value).1 = -1 := by
  unfold Inventory.heroItemRemove
  by_cases hneg : toInt value < 0
  · right
    have hbig : ¬ value < 2 ^ 31 := by
      unfold toInt at hneg
      omega
    rw [if_pos hneg]
    exact ⟨fun h => hbig h.1, rfl⟩
  · have hsmall : value < 2 ^ 31 := by
      unfold toInt at hneg
      omega
    rw [if_neg hneg, if_neg (by omega : ¬ value = 0)]
    cases hg : inv.heroItemGet uuid id with
    | none =>
      right
      rw [Inventory.heroItemCount, hg, getD_none]
      exact ⟨fun h => by omega, rfl⟩
    | some count =>
      rw [Inventory.heroItemCount, hg, getD_some]
      simp only
      by_cases hle : count < value
      · right
        rw [if_pos hle]
        exact ⟨fun h => by omega, rfl⟩
      · left
        rw [if_neg hle]
        refine ⟨hsmall, by omega, rfl, fun heq => ?_⟩
        have hi : inv.heroItem uuid id = some count := by
          rw [Inventory.heroItemGet] at hg
          split at hg
          · cases hg
          · exact hg
        have hitem := congrArg (fun i => i.heroItem uuid id) heq
        simp only [update_self, hi, some.injEq] at hitem
        omega

section Kinds
variable (hv : ¬ c.Void) (hpid : aiMaxId < pid)

include hv hpid

theorem pay_item (ht : c.type = rewardTypeItem) : Changed inv (checkAndConsume packages pid inv uuid c) ↔
    0 < c.value ∧ ∃ limit, inv.item c.id = some limit ∧ c.value ≤ limit := by
  have hv' : ¬ (c.type = 0 ∨ c.id = 0) := hv
  rw [checkAndConsume, if_neg hv', if_neg (by omega), if_pos ht]
  cases hi : inv.item c.id with
  | none =>
    refine ⟨fun h => absurd rfl h.2, ?_⟩
    rintro ⟨-, limit, hl, -⟩
    cases hl
  | some limit =>
    simp only [some.injEq, exists_eq_left']
    by_cases hshort : limit < c.value ∨ limit = 0
    · rw [if_pos hshort]
      exact ⟨fun h => absurd rfl h.2, fun h => by omega⟩
    · rw [if_neg hshort, itemRemove_changed hi (by omega)]
      exact ⟨fun h => ⟨h, by omega⟩, fun h => h.1⟩

theorem pay_heroItem (ht : c.type = rewardTypeHeroItem) : Changed inv (checkAndConsume packages pid inv uuid c) ↔
    0 < c.value ∧ c.value < 2 ^ 31 ∧ c.value ≤ inv.heroItemCount uuid c.id := by
  have hv' : ¬ (c.type = 0 ∨ c.id = 0) := hv
  have hti : c.type ≠ rewardTypeItem := by
    rw [ht]
    decide
  have htp : c.type ≠ consumeItemPackage := by
    rw [ht]
    decide
  rw [checkAndConsume, if_neg hv', if_neg (by omega), if_neg hti]
  by_cases hpos : c.value > 0
  · rw [if_pos ⟨ht, hpos⟩]
    have hcases := @heroItemRemove_cases inv uuid c.id c.value c.value_lt hpos
    generalize inv.heroItemRemove uuid c.id c.value = r at hcases
    obtain ⟨ret, inv'⟩ := r
    simp only at hcases ⊢
    cases hcases with
    | inl h =>
      obtain ⟨hsmall, hle, rfl, hne⟩ := h
      rw [if_neg (not_not.mpr rfl)]
      exact ⟨fun _ => ⟨hpos, hsmall, hle⟩, fun _ => ⟨rfl, hne⟩⟩
    | inr h =>
      obtain ⟨hnot, rfl⟩ := h
      rw [if_pos (by decide)]
      exact ⟨fun h => absurd h.1 (show ¬ retError = retSuccess by decide), fun h => absurd h.2 hnot⟩
  · rw [if_neg fun h => hpos h.2, if_neg fun h => htp h.1]
    exact ⟨fun h => absurd rfl h.2, fun h => absurd h.1 hpos⟩

theorem pay_package (ht : c.type = consumeItemPackage) : Changed inv (checkAndConsume packages pid inv uuid c) ↔
    0 < c.value ∧ ∃ items item limit n, packages c.id = some items ∧
      packageItem inv c.value items = some (item, limit, n) ∧ 0 < n := by
  have hv' : ¬ (c.type = 0 ∨ c.id = 0) := hv
  have hti : c.type ≠ rewardTypeItem := by
    rw [ht]
    decide
  have hth : c.type ≠ rewardTypeHeroItem := by
    rw [ht]
    decide
  rw [checkAndConsume, if_neg hv', if_neg (by omega), if_neg hti, if_neg fun h => hth h.1]
  by_cases hpos : c.value > 0
  · rw [if_pos ⟨ht, hpos⟩, consumePackage]
    cases packages c.id with
    | none =>
      refine ⟨fun h => absurd rfl h.2, ?_⟩
      rintro ⟨-, items, -, -, -, hp, -⟩
      cases hp
    | some items =>
      simp only [some.injEq]
      cases hpi : packageItem inv c.value items with
      | none =>
        refine ⟨fun h => absurd rfl h.2, ?_⟩
        rintro ⟨-, items', item, limit, n, hp, hitem, -⟩
        rw [← hp, hpi] at hitem
        cases hitem
      | some p =>
        obtain ⟨item, limit, n⟩ := p
        obtain ⟨hl, hn⟩ := packageItem_enough hpi
        simp only
        rw [itemRemove_changed hl hn]
        constructor
        · exact fun h => ⟨hpos, items, item, limit, n, rfl, hpi, h⟩
        · intro h
          obtain ⟨-, items', item', limit', n', hp, hitem, hn'⟩ := h
          rw [← hp, hpi] at hitem
          cases hitem
          exact hn'
  · rw [if_neg fun h => hpos h.2]
    exact ⟨fun h => absurd rfl h.2, fun h => absurd h.1 hpos⟩

end Kinds

theorem checkAndConsume_free (h : c.Void ∨ pid ≤ aiMaxId ∨
    c.type ≠ rewardTypeItem ∧ c.type ≠ rewardTypeHeroItem ∧ c.type ≠ consumeItemPackage) :
    checkAndConsume packages pid inv uuid c = (retSuccess, inv) := by
  rw [checkAndConsume]
  split
  · rfl
  case isFalse hv =>
    split
    · rfl
    case isFalse hpid =>
      obtain ⟨hi, hh, hp⟩ := (h.resolve_left hv).resolve_left hpid
      rw [if_neg hi, if_neg fun h => hh h.1, if_neg fun h => hp h.1]

theorem checkAndConsume_costly : Changed inv (checkAndConsume packages pid inv uuid c) ↔ Costly packages pid inv uuid c := by
  by_cases hfree : c.Void ∨ pid ≤ aiMaxId
  · have hpaid : checkAndConsume packages pid inv uuid c = (retSuccess, inv) :=
      checkAndConsume_free (hfree.imp_right Or.inl)
    rw [hpaid]
    refine ⟨fun h => absurd rfl h.2, fun h => ?_⟩
    exact absurd hfree (not_or.mpr ⟨h.real, Nat.not_le.mpr h.played⟩)
  obtain ⟨hv, hpid⟩ := not_or.mp hfree
  have hpid' : aiMaxId < pid := Nat.lt_of_not_le hpid
  have hcostly : Costly packages pid inv uuid c ↔ 0 < c.value ∧ c.Taken packages inv uuid :=
    ⟨fun h => ⟨h.pos, h.taken⟩, fun h => ⟨hpid', hv, h.1, h.2⟩⟩
  rw [hcostly]
  have hih : rewardTypeItem ≠ rewardTypeHeroItem := by decide
  have hip : rewardTypeItem ≠ consumeItemPackage := by decide
  have hhp : rewardTypeHeroItem ≠ consumeItemPackage := by decide
  by_cases hti : c.type = rewardTypeItem
  · rw [pay_item hv hpid' hti, Cost.Taken, hti]
    simp only [true_and, hih, hip, false_and, or_false]
  by_cases hth : c.type = rewardTypeHeroItem
  · rw [pay_heroItem hv hpid' hth, Cost.Taken, hth]
    simp only [true_and, hih.symm, hhp, false_and, or_false, false_or]
  by_cases htp : c.type = consumeItemPackage
  · rw [pay_package hv hpid' htp, Cost.Taken, htp]
    simp only [true_and, hip.symm, hhp.symm, false_and, false_or]
  · rw [checkAndConsume_free (.inr (.inr ⟨hti, hth, htp⟩)), Cost.Taken]
    simp only [hti, hth, htp, false_and, or_self, and_false, iff_false]
    exact fun h => h.2 rfl

theorem checkAndConsume_kept (h : ¬ Costly packages pid inv uuid c) : (checkAndConsume packages pid inv uuid c).2 = inv := by
  by_cases hret : (checkAndConsume packages pid inv uuid c).1 = retSuccess
  · by_contra hne
    exact h (checkAndConsume_costly.mp ⟨hret, hne⟩)
  · exact checkAndConsume_refused rfl hret

/-! ## What a cost names -/

def Less (inv : Inventory) (x : Good) (n : ℕ) (inv' : Inventory) : Prop :=
  ∀ y, inv'.count y + (if y = x then (n : ℤ) else 0) = inv.count y

/-- The cost asks for `n` of the goods `x`; a package names several, any of which will do. -/
inductive Cost.Names (packages : ConsumePackages) (uuid : ℕ) (c : Cost) : Good → ℕ → Prop
  | item (h : c.type = rewardTypeItem) : Cost.Names packages uuid c (.item c.id) c.value
  | heroItem (h : c.type = rewardTypeHeroItem) : Cost.Names packages uuid c (.heroItem uuid c.id) c.value
  | package (h : c.type = consumeItemPackage) {items : List (ℕ × ℕ × ℤ)} {id : ℕ} {value : ℤ}
      (hitems : packages c.id = some items) (hmem : (rewardTypeItem, id, value) ∈ items) :
      Cost.Names packages uuid c (.item id) (toUnsigned (value * c.value))

def Cost.Nothing (packages : ConsumePackages) (uuid : ℕ) (c : Cost) : Prop :=
  c.Void ∨ c.value = 0 ∨ ∃ x, c.Names packages uuid x 0

def Deducts (packages : ConsumePackages) (uuid : ℕ) (inv : Inventory) (c : Cost) (inv' : Inventory) : Prop :=
  (c.Void ∨ c.value = 0) ∧ inv'.count = inv.count ∨ ∃ x n, c.Names packages uuid x n ∧ Less inv x n inv'

def DeductsAll (packages : ConsumePackages) (uuid : ℕ) : Inventory → List Cost → Inventory → Prop
  | inv, [], inv' => inv'.count = inv.count
  | inv, c :: cs, inv' => ∃ mid, Deducts packages uuid inv c mid ∧ DeductsAll packages uuid mid cs inv'

theorem less_itemRemove {id limit value : ℕ} (h : inv.item id = some limit) (hle : value ≤ limit) :
    Less inv (.item id) value (inv.itemRemove id limit value) := by
  intro y
  rw [count_itemRemove h hle]
  omega

theorem packageItem_named {value : ℕ} {items : List (ℕ × ℕ × ℤ)} {id limit n : ℕ}
    (h : packageItem inv value items = some (id, limit, n)) :
    ∃ v, (rewardTypeItem, id, v) ∈ items ∧ n = toUnsigned (v * value) := by
  induction items with
  | nil => cases h
  | cons it items ih =>
    obtain ⟨type, itemId, itemValue⟩ := it
    have hlater : packageItem inv value items = some (id, limit, n) →
        ∃ v, (rewardTypeItem, id, v) ∈ (type, itemId, itemValue) :: items ∧ n = toUnsigned (v * value) := by
      intro h
      obtain ⟨v, hmem, hn⟩ := ih h
      exact ⟨v, mem_cons_of_mem _ hmem, hn⟩
    rw [packageItem] at h
    split at h
    case isFalse => exact hlater h
    case isTrue htype =>
      split at h
      · exact hlater h
      · split at h
        · exact hlater h
        · simp only [some.injEq, Prod.mk.injEq] at h
          obtain ⟨rfl, rfl, rfl⟩ := h
          exact ⟨itemValue, htype ▸ mem_cons_self, rfl⟩

theorem Costly.less (h : Costly packages pid inv uuid c) : ∃ x n, c.Names packages uuid x n ∧ 0 < n ∧
    Less inv x n (checkAndConsume packages pid inv uuid c).2 := by
  have hv' : ¬ (c.type = 0 ∨ c.id = 0) := h.real
  have hpid := h.played
  have hpos := h.pos
  rw [checkAndConsume, if_neg hv', if_neg (by omega)]
  obtain ⟨ht, limit, hl, hle⟩ | ⟨ht, hsmall, hle⟩ | ⟨ht, items, item, limit, n, hp, hitem, hn⟩ := h.taken
  · refine ⟨.item c.id, c.value, .item ht, hpos, ?_⟩
    rw [if_pos ht, hl]
    simp only
    rw [if_neg (by omega)]
    exact less_itemRemove hl hle
  · have hti : c.type ≠ rewardTypeItem := by
      rw [ht]
      decide
    refine ⟨.heroItem uuid c.id, c.value, .heroItem ht, hpos, ?_⟩
    rw [if_neg hti, if_pos ⟨ht, hpos⟩]
    have hcount := @count_heroItemRemove inv uuid c.id c.value
    obtain ⟨-, -, hret, -⟩ | ⟨hnot, -⟩ := @heroItemRemove_cases inv uuid c.id c.value c.value_lt hpos
    · generalize inv.heroItemRemove uuid c.id c.value = r at hcount hret
      obtain ⟨ret, inv'⟩ := r
      simp only at hret hcount ⊢
      subst hret
      simp only [true_and] at hcount
      rw [if_neg (not_not.mpr rfl)]
      exact hcount
    · exact absurd ⟨hsmall, hle⟩ hnot
  · have hti : c.type ≠ rewardTypeItem := by
      rw [ht]
      decide
    have hth : c.type ≠ rewardTypeHeroItem := by
      rw [ht]
      decide
    obtain ⟨v, hmem, rfl⟩ := packageItem_named hitem
    obtain ⟨hl, hle⟩ := packageItem_enough hitem
    refine ⟨.item item, _, .package ht hp hmem, hn, ?_⟩
    rw [if_neg hti, if_neg fun h => hth h.1, if_pos ⟨ht, hpos⟩, consumePackage, hp]
    simp only
    rw [hitem]
    exact less_itemRemove hl hle

theorem checkAndConsume_le (y : Good) : (checkAndConsume packages pid inv uuid c).2.count y ≤ inv.count y := by
  by_cases h : Costly packages pid inv uuid c
  · obtain ⟨x, n, -, -, hless⟩ := h.less
    have hy := hless y
    split at hy
    · omega
    · omega
  · rw [checkAndConsume_kept h]

/-! ## Lists of costs -/

def Untaken (packages : ConsumePackages) (pid : ℕ) (inv : Inventory) (uuid : ℕ) : List Cost → Prop
  | [] => True
  | c :: cs => ¬ Costly packages pid inv uuid c ∧
      ((checkAndConsume packages pid inv uuid c).1 = retSuccess → Untaken packages pid inv uuid cs)

def Payable (packages : ConsumePackages) (pid uuid : ℕ) : Inventory → List Cost → Prop
  | _, [] => True
  | inv, c :: cs => (checkAndConsume packages pid inv uuid c).1 = retSuccess ∧
      Payable packages pid uuid (checkAndConsume packages pid inv uuid c).2 cs

variable {fail : ℤ} {cs : List Cost}

theorem consumeAll_cons : consumeAll packages pid fail uuid inv (c :: cs) =
    if (checkAndConsume packages pid inv uuid c).1 = retSuccess then
      consumeAll packages pid fail uuid (checkAndConsume packages pid inv uuid c).2 cs
    else (fail, (checkAndConsume packages pid inv uuid c).2) := by
  rw [consumeAll]
  generalize checkAndConsume packages pid inv uuid c = r
  obtain ⟨ret, inv'⟩ := r
  simp only
  by_cases hret : ret = 0
  · rw [if_neg (not_not.mpr hret), if_pos (show ret = retSuccess from hret)]
  · rw [if_pos hret, if_neg (show ¬ ret = retSuccess from hret)]

theorem consumeAll_le (y : Good) : (consumeAll packages pid fail uuid inv cs).2.count y ≤ inv.count y := by
  induction cs generalizing inv with
  | nil => exact le_refl _
  | cons c cs ih =>
    rw [consumeAll_cons]
    split
    · exact ih.trans (checkAndConsume_le y)
    · exact checkAndConsume_le y

theorem consumeAll_success (hfail : fail ≠ retSuccess) :
    (consumeAll packages pid fail uuid inv cs).1 = retSuccess ↔ Payable packages pid uuid inv cs := by
  induction cs generalizing inv with
  | nil => exact ⟨fun _ => trivial, fun _ => rfl⟩
  | cons c cs ih =>
    rw [consumeAll_cons, Payable]
    by_cases hret : (checkAndConsume packages pid inv uuid c).1 = retSuccess
    · rw [if_pos hret, ih]
      exact ⟨fun h => ⟨hret, h⟩, fun h => h.2⟩
    · rw [if_neg hret]
      exact ⟨fun h => absurd h hfail, fun h => absurd h.1 hret⟩

theorem consumeAll_kept (h : Untaken packages pid inv uuid cs) : (consumeAll packages pid fail uuid inv cs).2 = inv := by
  induction cs with
  | nil => rfl
  | cons c cs ih =>
    rw [consumeAll_cons, checkAndConsume_kept h.1]
    split
    case isTrue hret => exact ih (h.2 hret)
    case isFalse => rfl

theorem untaken_of_count (h : ∀ y, inv.count y ≤ (consumeAll packages pid fail uuid inv cs).2.count y) :
    Untaken packages pid inv uuid cs := by
  induction cs with
  | nil => trivial
  | cons c cs ih =>
    rw [consumeAll_cons] at h
    have hfree : ¬ Costly packages pid inv uuid c := by
      intro hcostly
      obtain ⟨x, n, -, hpos, hless⟩ := hcostly.less
      have hx := hless x
      have hback := h x
      rw [if_pos (checkAndConsume_costly.mpr hcostly).1] at hback
      rw [if_pos rfl] at hx
      have hle := hback.trans (consumeAll_le x)
      omega
    refine ⟨hfree, fun hret => ih ?_⟩
    rwa [if_pos hret, checkAndConsume_kept hfree] at h

theorem consumeAll_kept_iff : (consumeAll packages pid fail uuid inv cs).2 = inv ↔ Untaken packages pid inv uuid cs :=
  ⟨fun h => untaken_of_count fun _ => by rw [h], consumeAll_kept⟩

theorem consumeAll_count_iff : (consumeAll packages pid fail uuid inv cs).2.count = inv.count ↔
    Untaken packages pid inv uuid cs :=
  ⟨fun h => untaken_of_count fun y => by rw [h], fun h => by rw [consumeAll_kept h]⟩

theorem payable_append {ds : List Cost} : Payable packages pid uuid inv (cs ++ ds) ↔ Payable packages pid uuid inv cs ∧
    Payable packages pid uuid (consumeAll packages pid fail uuid inv cs).2 ds := by
  induction cs generalizing inv with
  | nil => exact ⟨fun h => ⟨trivial, h⟩, And.right⟩
  | cons c cs ih =>
    rw [cons_append, Payable, Payable, ih, consumeAll_cons, and_assoc]
    refine and_congr_right fun hret => ?_
    rw [if_pos hret]

theorem consumeAll_fail (fail' : ℤ) :
    (consumeAll packages pid fail uuid inv cs).2 = (consumeAll packages pid fail' uuid inv cs).2 := by
  induction cs generalizing inv with
  | nil => rfl
  | cons c cs ih =>
    rw [consumeAll_cons, consumeAll_cons]
    split
    · exact ih
    · rfl

theorem consumeAll_append {ds : List Cost} (h : Payable packages pid uuid inv cs) :
    (consumeAll packages pid fail uuid inv (cs ++ ds)).2 =
      (consumeAll packages pid fail uuid (consumeAll packages pid fail uuid inv cs).2 ds).2 := by
  induction cs generalizing inv with
  | nil => rfl
  | cons c cs ih =>
    rw [cons_append, consumeAll_cons, if_pos h.1, consumeAll_cons, if_pos h.1]
    exact ih h.2

def Cost.Consumed (pid : ℕ) (c : Cost) : Prop :=
  aiMaxId < pid ∧ (c.type = rewardTypeItem ∨ c.type = rewardTypeHeroItem ∨ c.type = consumeItemPackage)

theorem Cost.Names.consumed {x : Good} {n : ℕ} (h : c.Names packages uuid x n) :
    c.type = rewardTypeItem ∨ c.type = rewardTypeHeroItem ∨ c.type = consumeItemPackage := by
  cases h with
  | item h => exact .inl h
  | heroItem h => exact .inr (.inl h)
  | package h => exact .inr (.inr h)

theorem Cost.Names.pos {x : Good} {n : ℕ} (h : c.Names packages uuid x n) (hn : ¬ c.Nothing packages uuid) : 0 < n := by
  refine Nat.pos_of_ne_zero fun h0 => hn (.inr (.inr ⟨x, ?_⟩))
  rwa [h0] at h

theorem checkAndConsume_deducts (hret : (checkAndConsume packages pid inv uuid c).1 = retSuccess)
    (h : c.Nothing packages uuid ∨ c.Consumed pid) :
    Deducts packages uuid inv c (checkAndConsume packages pid inv uuid c).2 := by
  by_cases hcostly : Costly packages pid inv uuid c
  · obtain ⟨x, n, hnames, -, hless⟩ := hcostly.less
    exact .inr ⟨x, n, hnames, hless⟩
  rw [checkAndConsume_kept hcostly]
  by_cases hfree : c.Void ∨ c.value = 0
  · exact .inl ⟨hfree, rfl⟩
  have hzero : ∀ x, c.Names packages uuid x 0 → Deducts packages uuid inv c inv := by
    intro x hx
    refine .inr ⟨x, 0, hx, fun y => ?_⟩
    simp
  obtain ⟨hv, h0⟩ := not_or.mp hfree
  cases h with
  | inl hnothing =>
    obtain ⟨x, hx⟩ := (hnothing.resolve_left hv).resolve_left h0
    exact hzero x hx
  | inr hconsumed =>
    obtain ⟨hpid, htype⟩ := hconsumed
    have hpos : 0 < c.value := Nat.pos_of_ne_zero h0
    have hnot : ¬ c.Taken packages inv uuid := fun htaken => hcostly ⟨hpid, hv, hpos, htaken⟩
    have hv' : ¬ (c.type = 0 ∨ c.id = 0) := hv
    rw [checkAndConsume, if_neg hv', if_neg (by omega)] at hret
    by_cases hti : c.type = rewardTypeItem
    · rw [if_pos hti] at hret
      exfalso
      cases hi : inv.item c.id with
      | none =>
        rw [hi] at hret
        exact absurd hret (show ¬ retItemNotEnough = retSuccess by decide)
      | some limit =>
        rw [hi] at hret
        simp only at hret
        split at hret
        case isTrue => exact absurd hret (show ¬ retItemNotEnough = retSuccess by decide)
        case isFalse hle => exact hnot (.inl ⟨hti, limit, hi, by omega⟩)
    by_cases hth : c.type = rewardTypeHeroItem
    · rw [if_neg hti, if_pos ⟨hth, hpos⟩] at hret
      exfalso
      obtain ⟨hsmall, hle, -⟩ | ⟨-, hrem⟩ := @heroItemRemove_cases inv uuid c.id c.value c.value_lt hpos
      · exact hnot (.inr (.inl ⟨hth, hsmall, hle⟩))
      · generalize inv.heroItemRemove uuid c.id c.value = r at hret hrem
        obtain ⟨ret, inv'⟩ := r
        simp only at hret hrem
        rw [hrem] at hret
        exact absurd hret (show ¬ retError = retSuccess by decide)
    · have htp : c.type = consumeItemPackage := (htype.resolve_left hti).resolve_left hth
      rw [if_neg hti, if_neg fun h => hth h.1, if_pos ⟨htp, hpos⟩, consumePackage] at hret
      cases hp : packages c.id with
      | none =>
        rw [hp] at hret
        exact absurd hret (show ¬ retError = retSuccess by decide)
      | some items =>
        rw [hp] at hret
        simp only at hret
        cases hitem : packageItem inv c.value items with
        | none =>
          rw [hitem] at hret
          exact absurd hret (show ¬ retError = retSuccess by decide)
        | some p =>
          obtain ⟨item, limit, n⟩ := p
          obtain ⟨v, hmem, hn⟩ := packageItem_named hitem
          have hn0 : n = 0 := by
            by_contra hne
            exact hnot (.inr (.inr ⟨htp, items, item, limit, n, hp, hitem, Nat.pos_of_ne_zero hne⟩))
          refine hzero (.item item) ?_
          rw [← hn0, hn]
          exact .package htp hp hmem

variable {inv' : Inventory}

theorem Deducts.count_le (h : Deducts packages uuid inv c inv') (y : Good) :
    inv'.count y ≤ inv.count y := by
  obtain ⟨-, hsame⟩ | ⟨x, n, -, hless⟩ := h
  · rw [hsame]
  · have hy := hless y
    split at hy
    · omega
    · omega

theorem DeductsAll.count_le {inv' : Inventory} (h : DeductsAll packages uuid inv cs inv') (y : Good) :
    inv'.count y ≤ inv.count y := by
  induction cs generalizing inv with
  | nil => rw [show inv'.count = inv.count from h]
  | cons c cs ih =>
    obtain ⟨mid, hc, hcs⟩ := h
    exact (ih hcs).trans (hc.count_le y)

theorem DeductsAll.nothing (h : DeductsAll packages uuid inv cs inv')
    (hkept : ∀ y, inv.count y ≤ inv'.count y) : ∀ c ∈ cs, c.Nothing packages uuid := by
  induction cs generalizing inv with
  | nil => exact fun _ hc => nomatch hc
  | cons c cs ih =>
    obtain ⟨mid, hc, hcs⟩ := h
    intro d hd
    cases mem_cons.mp hd with
    | inr hd => exact ih hcs (fun y => (hc.count_le y).trans (hkept y)) d hd
    | inl hd =>
      subst hd
      obtain ⟨hfree, -⟩ | ⟨x, n, hnames, hless⟩ := hc
      · exact hfree.elim .inl fun h0 => .inr (.inl h0)
      · by_contra hsome
        have hpos := hnames.pos hsome
        have hx := hless x
        have hback := (hkept x).trans (hcs.count_le x)
        rw [if_pos rfl] at hx
        omega

theorem DeductsAll.named (h : DeductsAll packages uuid inv cs inv') :
    ∀ c ∈ cs, c.Nothing packages uuid ∨
      c.type = rewardTypeItem ∨ c.type = rewardTypeHeroItem ∨ c.type = consumeItemPackage := by
  induction cs generalizing inv with
  | nil => exact fun _ hc => nomatch hc
  | cons c cs ih =>
    obtain ⟨mid, hc, hcs⟩ := h
    intro d hd
    cases mem_cons.mp hd with
    | inr hd => exact ih hcs d hd
    | inl hd =>
      subst hd
      obtain ⟨hfree, -⟩ | ⟨x, n, hnames, -⟩ := hc
      · exact .inl (hfree.elim .inl fun h0 => .inr (.inl h0))
      · exact .inr hnames.consumed

theorem consumeAll_ai (hpid : pid ≤ aiMaxId) : consumeAll packages pid fail uuid inv cs = (retSuccess, inv) := by
  induction cs with
  | nil => rfl
  | cons c cs ih => rw [consumeAll_cons, checkAndConsume_free (.inr (.inl hpid)), if_pos rfl, ih]

/-- What is paid for a list is what it asks for, unless one of its costs asks for something that is not consumed. -/
theorem consumeAll_deducts_iff (hpay : Payable packages pid uuid inv cs) :
    DeductsAll packages uuid inv cs (consumeAll packages pid fail uuid inv cs).2 ↔
      ∀ c ∈ cs, c.Nothing packages uuid ∨ c.Consumed pid := by
  constructor
  · intro h
    by_cases hpid : pid ≤ aiMaxId
    · rw [consumeAll_ai hpid] at h
      exact fun c hc => .inl (h.nothing (fun _ => le_refl _) c hc)
    · exact fun c hc => (h.named c hc).imp_right fun ht => ⟨Nat.lt_of_not_le hpid, ht⟩
  · intro h
    induction cs generalizing inv with
    | nil => rfl
    | cons c cs ih =>
      obtain ⟨hret, hrest⟩ := hpay
      rw [consumeAll_cons, if_pos hret]
      exact ⟨_, checkAndConsume_deducts hret (h c mem_cons_self),
        ih hrest fun d hd => h d (mem_cons_of_mem c hd)⟩

/-! ## Paid once, asked for several times -/

def Cost.asks (uuid : ℕ) (y : Good) (c : Cost) : ℤ := if c.type = 0 ∨ c.id = 0 then 0 else owed uuid y c

/-- The list has no packages, which name several goods. -/
def Plain (cs : List Cost) : Prop := ∀ c ∈ cs, c.Void ∨ c.type ≠ consumeItemPackage

theorem Cost.Void.asks (h : c.Void) (y : Good) : c.asks uuid y = 0 := if_pos h

theorem Deducts.asks {inv' : Inventory} (h : Deducts packages uuid inv c inv') (hv : ¬ c.Void)
    (hplain : c.type ≠ consumeItemPackage) (y : Good) : inv'.count y + c.asks uuid y = inv.count y := by
  have hv' : ¬ (c.type = 0 ∨ c.id = 0) := hv
  rw [Cost.asks, if_neg hv', owed]
  obtain ⟨hfree, hsame⟩ | ⟨x, n, hnames, hless⟩ := h
  · rw [hsame, hfree.resolve_left hv, Nat.cast_zero, ite_self, add_zero]
  · have hy := hless y
    cases hnames with
    | item ht =>
      rw [← hy, goodOf, if_pos ht]
      simp only [some.injEq, eq_comm]
    | heroItem ht =>
      have hti : c.type ≠ rewardTypeItem := by
        rw [ht]
        decide
      rw [← hy, goodOf, if_neg hti, if_pos ht]
      simp only [some.injEq, eq_comm]
    | package ht => exact absurd ht hplain

theorem DeductsAll.asks_le (h : DeductsAll packages uuid inv cs inv') (hplain : Plain cs) (y : Good) :
    inv'.count y + sumOf (Cost.asks uuid y) cs ≤ inv.count y := by
  induction cs generalizing inv with
  | nil =>
    rw [sumOf_nil, add_zero, show inv'.count = inv.count from h]
  | cons c cs ih =>
    obtain ⟨mid, hc, hcs⟩ := h
    obtain ⟨hplainC, hplainCs⟩ := forall_mem_cons.mp hplain
    have hrest := ih hcs hplainCs
    have hfirst : mid.count y + c.asks uuid y ≤ inv.count y := by
      by_cases hv : c.Void
      · rw [hv.asks, add_zero]
        exact hc.count_le y
      · exact le_of_eq (hc.asks hv (hplainC.resolve_left hv) y)
    rw [sumOf_cons]
    omega

theorem consumeAll_asks (hpay : Payable packages pid uuid inv cs) (hplain : Plain cs)
    (h : ∀ c ∈ cs, c.Nothing packages uuid ∨ c.Consumed pid) (y : Good) :
    (consumeAll packages pid fail uuid inv cs).2.count y + sumOf (Cost.asks uuid y) cs = inv.count y := by
  induction cs generalizing inv with
  | nil => exact add_zero _
  | cons c cs ih =>
    obtain ⟨hret, hrest⟩ := hpay
    obtain ⟨hplainC, hplainCs⟩ := forall_mem_cons.mp hplain
    obtain ⟨hc, hcs⟩ := forall_mem_cons.mp h
    have hlater := ih hrest hplainCs hcs
    have hfirst : (checkAndConsume packages pid inv uuid c).2.count y + c.asks uuid y = inv.count y := by
      by_cases hv : c.Void
      · rw [checkAndConsume_free (.inl hv), hv.asks, add_zero]
      · exact (checkAndConsume_deducts hret hc).asks hv (hplainC.resolve_left hv) y
    rw [consumeAll_cons, if_pos hret, sumOf_cons]
    omega

theorem Cost.Nothing.free (h : c.Nothing packages uuid) (hplain : c.Void ∨ c.type ≠ consumeItemPackage) :
    c.Void ∨ c.value = 0 := by
  obtain hv | h0 | ⟨x, hnames⟩ := h
  · exact .inl hv
  · exact .inr h0
  · have hvalue : ∀ n, c.Names packages uuid x n → n = 0 → c.Void ∨ c.value = 0 := by
      intro n hnames hn
      cases hnames with
      | item => exact .inr hn
      | heroItem => exact .inr hn
      | package ht => exact .inl (hplain.resolve_right fun hne => hne ht)
    exact hvalue 0 hnames rfl

theorem Costly.consumed (h : Costly packages pid inv uuid c) : c.Consumed pid := by
  obtain ⟨x, n, hnames, -⟩ := h.less
  exact ⟨h.played, hnames.consumed⟩

/-- Of plain costs that can be paid, none takes anything exactly if each asks for nothing or is not consumed. -/
theorem untaken_iff (hpay : Payable packages pid uuid inv cs) (hplain : Plain cs) :
    Untaken packages pid inv uuid cs ↔ ∀ c ∈ cs, c.Nothing packages uuid ∨ ¬ c.Consumed pid := by
  induction cs with
  | nil => exact ⟨fun _ _ hc => absurd hc not_mem_nil, fun _ => trivial⟩
  | cons c cs ih =>
    obtain ⟨hret, hrest⟩ := hpay
    obtain ⟨hplainC, hplainCs⟩ := forall_mem_cons.mp hplain
    have hcost : ¬ Costly packages pid inv uuid c ↔ c.Nothing packages uuid ∨ ¬ c.Consumed pid := by
      constructor
      · intro hfree
        by_contra hboth
        obtain ⟨hsome, hconsumed⟩ := not_or.mp hboth
        have hdeducts := checkAndConsume_deducts hret (.inr (not_not.mp hconsumed) : c.Nothing packages uuid ∨ c.Consumed pid)
        rw [checkAndConsume_kept hfree] at hdeducts
        obtain ⟨hnone, -⟩ | ⟨x, n, hnames, hless⟩ := hdeducts
        · exact hsome (hnone.elim .inl fun h0 => .inr (.inl h0))
        · have hpos := hnames.pos hsome
          have hx := hless x
          rw [if_pos rfl] at hx
          omega
      · intro h hcostly
        obtain hnothing | hunconsumed := h
        · obtain hv | h0 := hnothing.free hplainC
          · exact hcostly.real hv
          · exact absurd hcostly.pos (by omega)
        · exact hunconsumed hcostly.consumed
    rw [Untaken, forall_mem_cons, hcost]
    refine and_congr_right fun hc => ?_
    rw [checkAndConsume_kept (hcost.mpr hc)] at hrest
    rw [← ih hrest hplainCs]
    exact ⟨fun h => h hret, fun h _ => h⟩

theorem DeductsAll.split {ds : List Cost} {inv' : Inventory} (h : DeductsAll packages uuid inv (cs ++ ds) inv') :
    ∃ mid, DeductsAll packages uuid inv cs mid ∧ DeductsAll packages uuid mid ds inv' := by
  induction cs generalizing inv with
  | nil => exact ⟨inv, rfl, h⟩
  | cons c cs ih =>
    obtain ⟨first, hc, hrest⟩ := h
    obtain ⟨mid, hcs, hds⟩ := ih hrest
    exact ⟨mid, ⟨first, hc, hcs⟩, hds⟩

theorem deductsAll_nothing (h : ∀ c ∈ cs, c.Void ∨ c.value = 0) : DeductsAll packages uuid inv cs inv := by
  induction cs with
  | nil => rfl
  | cons c cs ih =>
    obtain ⟨hc, hcs⟩ := forall_mem_cons.mp h
    exact ⟨inv, .inl ⟨hc, rfl⟩, ih hcs⟩

/-- A cost is settled for `k` times by being paid once: it asks for nothing, or is not to be paid and is not consumed, or is
to be paid once and is. -/
def Cost.SettledFor (packages : ConsumePackages) (pid uuid k : ℕ) (c : Cost) : Prop :=
  c.Nothing packages uuid ∨ k = 0 ∧ ¬ c.Consumed pid ∨ k = 1 ∧ c.Consumed pid

theorem consumeAll_times_iff {k : ℕ} (hpay : Payable packages pid uuid inv cs) (hplain : Plain cs) :
    DeductsAll packages uuid inv (List.replicate k cs).flatten (consumeAll packages pid fail uuid inv cs).2 ↔
      ∀ c ∈ cs, c.SettledFor packages pid uuid k := by
  have hnothing : (∀ c ∈ cs, c.Nothing packages uuid) → (consumeAll packages pid fail uuid inv cs).2 = inv :=
    fun h => consumeAll_kept ((untaken_iff hpay hplain).mpr fun c hc => .inl (h c hc))
  cases k with
  | zero =>
    have hzero : ∀ c : Cost, c.SettledFor packages pid uuid 0 ↔ c.Nothing packages uuid ∨ ¬ c.Consumed pid := by
      intro c
      simp [Cost.SettledFor]
    simp only [hzero]
    rw [← untaken_iff hpay hplain, ← @consumeAll_count_iff packages pid inv uuid fail cs]
    rfl
  | succ k =>
    cases k with
    | zero =>
      have hone : ∀ c : Cost, c.SettledFor packages pid uuid 1 ↔ c.Nothing packages uuid ∨ c.Consumed pid := by
        intro c
        simp [Cost.SettledFor]
      simp only [hone, zero_add, replicate_one, flatten_singleton]
      exact consumeAll_deducts_iff hpay
    | succ k =>
      have hmore : ∀ c : Cost, c.SettledFor packages pid uuid (k + 1 + 1) ↔ c.Nothing packages uuid := by
        intro c
        simp [Cost.SettledFor]
      simp only [hmore]
      rw [replicate_succ, flatten_cons]
      constructor
      · intro h
        obtain ⟨mid, hfirst, hrest⟩ := h.split
        by_cases hpid : pid ≤ aiMaxId
        · rw [consumeAll_ai hpid] at hrest
          exact hfirst.nothing fun y => hrest.count_le y
        · have hconsumed : ∀ c ∈ cs, c.Nothing packages uuid ∨ c.Consumed pid :=
            fun c hc => (hfirst.named c hc).imp_right fun ht => ⟨Nat.lt_of_not_le hpid, ht⟩
          intro c hc
          refine hrest.nothing (fun y => ?_) c ?_
          · have hle := hfirst.asks_le hplain y
            have heq := @consumeAll_asks packages pid inv uuid fail cs hpay hplain hconsumed y
            omega
          · rw [replicate_succ, flatten_cons]
            exact mem_append_left _ hc
      · intro h
        rw [hnothing h]
        refine deductsAll_nothing fun c hc => ?_
        have hmem : c ∈ cs := by
          obtain hc | hc := mem_append.mp hc
          · exact hc
          · obtain ⟨l, hl, hcl⟩ := mem_flatten.mp hc
            rwa [eq_of_mem_replicate hl] at hcl
        exact (h c hmem).free (hplain c hmem)

end CServer.Logic
