import CServer.Logic.EquipLevelUp
import CServer.Logic.Payment

/-! # `world/logic/aL.c`, `world/modules/hero.c`: exp that is bought for a hero

A hero gets exp for items of the player: so much exp for so many of them, or what one kind of item is worth. The cost is
consumed first. Whether the exp can be added is found out afterwards, by the module of the heroes: the exp has to be
positive, and no hero may get ahead of the level of the leading role by it.

`transfrom_exp_to_level` and `get_exp_by_level` go through `double`s and are parameters, as is what
`check_openlev_config` and the status of the quests say. Renewing a quest may accept it, an operation of its own.
-/
namespace CServer.Logic
open CServer.Lib CServer.Modules

/-! ## The code -/

def leadingRole : ℕ := 11000
def upGradeHero : ℤ := 1
def upGradeWeapon : ℤ := 2

structure ExpHero extends Hero where
  exp : ℤ
  stage : ℤ
  weaponExp : ℤ

structure ExpConfig where
  consume : CostConfig
  heroGid : ℤ
  limitLv : ℤ
  fixedExp : ℤ
  questId : ℤ
  questExp : ℤ

structure ExpTables extends EquipTables where
  stageMax : ℕ → ℤ → Option ℤ
  toLevel : ℤ → ℤ → ℕ → ℤ
  expByLevel : ℤ → ℤ → ℕ → ℤ
  expConfig : ℤ → Option ExpConfig

/-- The heroes by uuid, the one that is found for a kind, and what costs are paid from. -/
structure HeroBag where
  uuid : ℕ → Option ExpHero
  m : ℕ → Option ℕ
  inventory : Inventory

/-- What the request finds: whether levels may be raised yet, and which quests are finished. -/
structure ExpPlayer where
  pid : ℕ
  opened : Bool
  questFinished : ℤ → Bool

namespace HeroBag

def heroGet (bag : HeroBag) (gid uuid : ℕ) : Option ExpHero :=
  if uuid ≠ 0 then bag.uuid uuid else (bag.m gid).bind bag.uuid

def getLeadingRoleLevel (bag : HeroBag) : ℤ := ((bag.heroGet leadingRole 0).map fun hero => hero.level).getD 0

def setHero (bag : HeroBag) (hero : ExpHero) : HeroBag :=
  { bag with uuid := Function.update bag.uuid hero.uuid (some hero) }

variable (t : ExpTables)

def heroAddNormalExp (bag : HeroBag) (hero : ExpHero) (exp : ℤ) : ℤ × HeroBag :=
  if exp ≤ 0 then (retParamError, bag)
  else if hero.gid ≠ leadingRole ∧ t.toLevel (toInt (hero.exp + exp)) upGradeHero hero.gid >
      toInt (bag.getLeadingRoleLevel * (t.factor 18).getD 1) then (retMaxLevel, bag)
  else
    let exp := toInt (hero.exp + exp)
    (retSuccess, bag.setHero { hero with exp := exp, level := t.toLevel exp upGradeHero hero.gid })

def heroAddWeaponExp (bag : HeroBag) (hero : ExpHero) (exp : ℤ) : ℤ × HeroBag :=
  if exp ≤ 0 then (retParamError, bag)
  else
    let exp := toInt (hero.weaponExp + exp)
    (retSuccess, bag.setHero { hero with weaponExp := exp, weaponLevel := t.toLevel exp upGradeWeapon hero.gid })

/-- Exp of the type 0 is the hero's own, any other that of the weapon. -/
def addExp (bag : HeroBag) (hero : ExpHero) (type exp : ℤ) : ℤ × HeroBag :=
  if type = 0 then bag.heroAddNormalExp t hero exp else bag.heroAddWeaponExp t hero exp

def chargeExp (pid : ℕ) (bag : HeroBag) (hero : ExpHero) (type : ℤ) (cost : CostConfig) (exp : ℤ) :
    ℤ × HeroBag :=
  match checkAndConsume t.packages pid bag.inventory hero.uuid cost.pass with
  | (ret, inv) =>
    if ret ≠ 0 then (retNotEnough, { bag with inventory := inv })
    else { bag with inventory := inv }.addExp t hero type exp

/-- `pHero->level >= (unsigned int)max_level`; the stage is looked up for the kind `gid`. -/
def atMaxLevel (gid : ℕ) (hero : ExpHero) : Bool :=
  decide (toUnsigned hero.level ≥ toUnsigned ((t.stageMax gid hero.stage).getD 9999))

def heroAddExp (player : ExpPlayer) (bag : HeroBag) (gid : ℕ) (exp type : ℤ) (uuid : ℕ) : ℤ × HeroBag :=
  match bag.heroGet gid uuid with
  | none => (retError, bag)
  | some hero =>
    if player.opened = false then (retPermission, bag)
    else if atMaxLevel t gid hero then (retFull, bag)
    else if type = 0 then
      match t.getUpgradeConfig 1 upGradeHero with
      | none => (retNotExist, bag)
      | some cfg => bag.chargeExp t player.pid hero type ⟨cfg.consumeType, cfg.consumeId, exp⟩ exp
    else
      match t.getUpgradeConfig hero.weaponLevel upGradeWeapon with
      | none => (retNotExist, bag)
      | some cfg => bag.chargeExp t player.pid hero type ⟨cfg.consumeType, cfg.consumeId, exp⟩ exp

def levelExp (hero : ExpHero) : ℤ :=
  let next := t.expByLevel (toInt (hero.level + 1)) upGradeHero hero.gid
  let current := t.expByLevel (toInt hero.level) upGradeHero hero.gid
  if next > 0 ∧ current > 0 then toInt (next - current) else 0

/-- From the level `limit_lv` on the exp is fixed, and a quest adds to it. -/
def itemExp (player : ExpPlayer) (hero : ExpHero) (cfg : ExpConfig) (exp : ℤ) : ℤ :=
  let exp := if toUnsigned hero.level ≥ toUnsigned cfg.limitLv then cfg.fixedExp else exp
  if cfg.questId > 0 ∧ player.questFinished cfg.questId then toInt (exp + cfg.questExp) else exp

def heroAddExpByItem (player : ExpPlayer) (bag : HeroBag) (uuid : ℕ) (type cfgId : ℤ) : ℤ × HeroBag :=
  match bag.heroGet 0 uuid with
  | none => (retError, bag)
  | some hero =>
    match t.expConfig cfgId with
    | none => (retError, bag)
    | some cfg =>
      if hero.gid ≠ toUnsigned cfg.heroGid then (retError, bag)
      else if player.opened = false then (retPermission, bag)
      else if atMaxLevel t hero.gid hero then (retFull, bag)
      else if type = 0 then
        let exp := levelExp t hero
        if exp ≤ 0 then (retError, bag)
        else bag.chargeExp t player.pid hero type cfg.consume (itemExp player hero cfg exp)
      else
        let exp := t.expByLevel (toInt hero.level) upGradeWeapon hero.gid
        if exp < 0 then (retNotExist, bag)
        else bag.chargeExp t player.pid hero type cfg.consume (itemExp player hero cfg exp)

end HeroBag

inductive ExpPurchase
  | addExp (gid : ℕ) (exp type : ℤ) (uuid : ℕ)
  | addExpByItem (uuid : ℕ) (type cfgId : ℤ)

variable (t : ExpTables)

variable (player : ExpPlayer)

def ExpPurchase.buy (bag : HeroBag) : ExpPurchase → ℤ × HeroBag
  | addExp gid exp type uuid => bag.heroAddExp t player gid exp type uuid
  | addExpByItem uuid type cfgId => bag.heroAddExpByItem t player uuid type cfgId

/-! ## Purchases that fail -/

/-- Where the purchase fails, the items, the exp and the levels are what they were. -/
def CostsNothing (bag : HeroBag) (r : ℤ × HeroBag) : Prop := r.1 ≠ retSuccess → r.2 = bag

def HeroBag.Refuses (bag : HeroBag) (hero : ExpHero) (type exp : ℤ) : Prop :=
  exp ≤ 0 ∨ type = 0 ∧ hero.gid ≠ leadingRole ∧ t.toLevel (toInt (hero.exp + exp)) upGradeHero hero.gid >
    toInt (bag.getLeadingRoleLevel * (t.factor 18).getD 1)

/-- Something is taken for exp that the hero is then refused. -/
def HeroBag.InVain (pid : ℕ) (bag : HeroBag) (hero : ExpHero) (type : ℤ) (cost : CostConfig) (exp : ℤ) :
    Prop :=
  Costly t.packages pid bag.inventory hero.uuid cost.pass ∧ bag.Refuses t hero type exp

/-- The request passes the checks that come before the cost, and what it takes is taken in vain. -/
def ExpPurchase.InVain (t : ExpTables) (player : ExpPlayer) (bag : HeroBag) : ExpPurchase → Prop
  | addExp gid exp type uuid => ∃ hero cfg, bag.heroGet gid uuid = some hero ∧ player.opened = true ∧
      HeroBag.atMaxLevel t gid hero = false ∧
      (if type = 0 then t.getUpgradeConfig 1 upGradeHero else t.getUpgradeConfig hero.weaponLevel upGradeWeapon) =
        some cfg ∧
      bag.InVain t player.pid hero type ⟨cfg.consumeType, cfg.consumeId, exp⟩ exp
  | addExpByItem uuid type cfgId => ∃ hero cfg exp, bag.heroGet 0 uuid = some hero ∧ t.expConfig cfgId = some cfg ∧
      hero.gid = toUnsigned cfg.heroGid ∧ player.opened = true ∧ HeroBag.atMaxLevel t hero.gid hero = false ∧
      (if type = 0 then exp = HeroBag.levelExp t hero ∧ 0 < exp
        else exp = t.expByLevel (toInt hero.level) upGradeWeapon hero.gid ∧ 0 ≤ exp) ∧
      bag.InVain t player.pid hero type cfg.consume (HeroBag.itemExp player hero cfg exp)

section Charge
variable {t : ExpTables} {pid : ℕ} {bag : HeroBag} {hero : ExpHero} {type exp : ℤ} {cost : CostConfig}

theorem addExp_cases : (bag.addExp t hero type exp).1 = retSuccess ∧ ¬ bag.Refuses t hero type exp ∨
    (bag.addExp t hero type exp).1 ≠ retSuccess ∧ (bag.addExp t hero type exp).2 = bag ∧ bag.Refuses t hero type exp := by
  unfold HeroBag.addExp HeroBag.Refuses HeroBag.heroAddNormalExp HeroBag.heroAddWeaponExp
  by_cases hpos : exp ≤ 0
  · right
    simp only [hpos, if_true, true_or, and_true]
    have hret : retParamError ≠ retSuccess := by decide
    split
    · exact ⟨hret, rfl⟩
    · exact ⟨hret, rfl⟩
  · by_cases htype : type = 0
    · simp only [hpos, htype, if_true, if_false, true_and, false_or]
      have hret : retMaxLevel ≠ retSuccess := by decide
      split
      case isTrue h => exact .inr ⟨hret, rfl, h⟩
      case isFalse h => exact .inl ⟨rfl, h⟩
    · left
      simp only [hpos, htype, if_false, false_and, or_self, not_false_iff, and_true]

theorem chargeExp_iff : CostsNothing bag (bag.chargeExp t pid hero type cost exp) ↔
    ¬ bag.InVain t pid hero type cost exp := by
  have hcost := @checkAndConsume_costly t.packages pid bag.inventory hero.uuid cost.pass
  have hkept := @checkAndConsume_refused t.packages pid bag.inventory hero.uuid cost.pass _ rfl
  unfold HeroBag.chargeExp HeroBag.InVain
  rw [← hcost]
  generalize checkAndConsume t.packages pid bag.inventory hero.uuid cost.pass = r at hkept
  obtain ⟨ret, inv⟩ := r
  simp only at hkept ⊢
  by_cases hret : ret = 0
  · rw [if_neg (not_not.mpr hret)]
    have hrefuses : HeroBag.Refuses t { bag with inventory := inv } hero type exp ↔ bag.Refuses t hero type exp := Iff.rfl
    obtain hadd | hrefused := @addExp_cases t { bag with inventory := inv } hero type exp
    · exact ⟨fun _ h => hadd.2 (hrefuses.mpr h.2), fun _ hne => absurd hadd.1 hne⟩
    · obtain ⟨hne, hsame, hrefuses'⟩ := hrefused
      constructor
      · intro h hvain
        have hbag := (hsame.symm.trans (h hne)).symm
        exact hvain.1.2 (congrArg HeroBag.inventory hbag).symm
      · intro h _
        have hinv : inv = bag.inventory := by
          by_contra hchanged
          exact h ⟨⟨hret, hchanged⟩, hrefuses.mp hrefuses'⟩
        rw [hsame, hinv]
  · rw [if_pos hret]
    refine ⟨fun _ h => hret h.1.1, fun _ _ => ?_⟩
    rw [hkept hret]

end Charge

theorem refused_iff_not {bag : HeroBag} {P : Prop} (ret : ℤ) (h : ¬ P) : CostsNothing bag (ret, bag) ↔ ¬ P :=
  ⟨fun _ => h, fun _ _ => rfl⟩

theorem heroAddExp_iff (bag : HeroBag) (gid : ℕ) (exp type : ℤ) (uuid : ℕ) :
    CostsNothing bag (bag.heroAddExp t player gid exp type uuid) ↔
      ¬ (ExpPurchase.addExp gid exp type uuid).InVain t player bag := by
  unfold HeroBag.heroAddExp
  cases hhero : bag.heroGet gid uuid with
  | none =>
    refine refused_iff_not _ fun h => ?_
    obtain ⟨hero, -, hget, -⟩ := h
    cases hhero.symm.trans hget
  | some hero =>
    simp only
    by_cases hopen : player.opened = false
    · rw [if_pos hopen]
      refine refused_iff_not _ fun h => ?_
      obtain ⟨-, -, -, hopened, -⟩ := h
      cases hopen.symm.trans hopened
    rw [if_neg hopen]
    by_cases hmax : HeroBag.atMaxLevel t gid hero = true
    · rw [if_pos hmax]
      refine refused_iff_not _ fun h => ?_
      obtain ⟨hero', -, hget, -, hbelow, -⟩ := h
      obtain rfl := some_unique hhero hget
      cases hmax.symm.trans hbelow
    rw [if_neg hmax]
    have hvain : ∀ cfg, (if type = 0 then t.getUpgradeConfig 1 upGradeHero
        else t.getUpgradeConfig hero.weaponLevel upGradeWeapon) = some cfg →
        ((ExpPurchase.addExp gid exp type uuid).InVain t player bag ↔
          bag.InVain t player.pid hero type ⟨cfg.consumeType, cfg.consumeId, exp⟩ exp) := by
      intro cfg hcfg
      constructor
      · intro h
        obtain ⟨hero', cfg', hget, -, -, hcfg', h⟩ := h
        obtain rfl := some_unique hhero hget
        obtain rfl := some_unique hcfg hcfg'
        exact h
      · exact fun h => ⟨hero, cfg, hhero, eq_true_of_ne_false hopen, eq_false_of_ne_true hmax, hcfg, h⟩
    have hnone : (if type = 0 then t.getUpgradeConfig 1 upGradeHero
        else t.getUpgradeConfig hero.weaponLevel upGradeWeapon) = none →
        ¬ (ExpPurchase.addExp gid exp type uuid).InVain t player bag := by
      intro hcfg h
      obtain ⟨hero', cfg', hget, -, -, hcfg', -⟩ := h
      obtain rfl := some_unique hhero hget
      cases hcfg.symm.trans hcfg'
    by_cases htype : type = 0
    · rw [if_pos htype] at hnone ⊢
      simp only [if_pos htype] at hvain
      cases hcfg : t.getUpgradeConfig 1 upGradeHero with
      | none => exact refused_iff_not _ (hnone hcfg)
      | some cfg => rw [hvain cfg hcfg, ← chargeExp_iff]
    · rw [if_neg htype] at hnone ⊢
      simp only [if_neg htype] at hvain
      cases hcfg : t.getUpgradeConfig hero.weaponLevel upGradeWeapon with
      | none => exact refused_iff_not _ (hnone hcfg)
      | some cfg => rw [hvain cfg hcfg, ← chargeExp_iff]

theorem heroAddExpByItem_iff (bag : HeroBag) (uuid : ℕ) (type cfgId : ℤ) :
    CostsNothing bag (bag.heroAddExpByItem t player uuid type cfgId) ↔
      ¬ (ExpPurchase.addExpByItem uuid type cfgId).InVain t player bag := by
  unfold HeroBag.heroAddExpByItem
  cases hhero : bag.heroGet 0 uuid with
  | none =>
    refine refused_iff_not _ fun h => ?_
    obtain ⟨hero, -, -, hget, -⟩ := h
    cases hhero.symm.trans hget
  | some hero =>
    simp only
    cases hcfg : t.expConfig cfgId with
    | none =>
      refine refused_iff_not _ fun h => ?_
      obtain ⟨-, cfg, -, -, hget, -⟩ := h
      cases hcfg.symm.trans hget
    | some cfg =>
      simp only
      have hvain : (ExpPurchase.addExpByItem uuid type cfgId).InVain t player bag ↔
          ∃ exp, hero.gid = toUnsigned cfg.heroGid ∧ player.opened = true ∧ HeroBag.atMaxLevel t hero.gid hero = false ∧
            (if type = 0 then exp = HeroBag.levelExp t hero ∧ 0 < exp
              else exp = t.expByLevel (toInt hero.level) upGradeWeapon hero.gid ∧ 0 ≤ exp) ∧
            bag.InVain t player.pid hero type cfg.consume (HeroBag.itemExp player hero cfg exp) := by
        constructor
        · intro h
          obtain ⟨hero', cfg', exp, hget, hget', h⟩ := h
          obtain rfl := some_unique hhero hget
          obtain rfl := some_unique hcfg hget'
          exact ⟨exp, h⟩
        · intro h
          obtain ⟨exp, h⟩ := h
          exact ⟨hero, cfg, exp, hhero, hcfg, h⟩
      rw [hvain]
      by_cases hgid : hero.gid ≠ toUnsigned cfg.heroGid
      · rw [if_pos hgid]
        exact refused_iff_not _ fun ⟨_, h, _⟩ => hgid h
      rw [if_neg hgid]
      by_cases hopen : player.opened = false
      · rw [if_pos hopen]
        exact refused_iff_not _ fun ⟨_, _, h, _⟩ => nomatch hopen.symm.trans h
      rw [if_neg hopen]
      by_cases hmax : HeroBag.atMaxLevel t hero.gid hero = true
      · rw [if_pos hmax]
        exact refused_iff_not _ fun ⟨_, _, _, h, _⟩ => nomatch hmax.symm.trans h
      rw [if_neg hmax]
      have hchecks : hero.gid = toUnsigned cfg.heroGid ∧ player.opened = true ∧
          HeroBag.atMaxLevel t hero.gid hero = false :=
        ⟨not_not.mp hgid, eq_true_of_ne_false hopen, eq_false_of_ne_true hmax⟩
      obtain ⟨h1, h2, h3⟩ := hchecks
      by_cases htype : type = 0
      · simp only [if_pos htype]
        by_cases hexp : HeroBag.levelExp t hero ≤ 0
        · rw [if_pos hexp]
          refine refused_iff_not _ fun h => ?_
          obtain ⟨exp, -, -, -, ⟨rfl, hpos⟩, -⟩ := h
          omega
        · rw [if_neg hexp, chargeExp_iff]
          refine not_congr ⟨fun h => ⟨_, h1, h2, h3, ⟨rfl, by omega⟩, h⟩, fun h => ?_⟩
          obtain ⟨exp, -, -, -, ⟨rfl, -⟩, h⟩ := h
          exact h
      · simp only [if_neg htype]
        by_cases hexp : t.expByLevel (toInt hero.level) upGradeWeapon hero.gid < 0
        · rw [if_pos hexp]
          refine refused_iff_not _ fun h => ?_
          obtain ⟨exp, -, -, -, ⟨rfl, hpos⟩, -⟩ := h
          omega
        · rw [if_neg hexp, chargeExp_iff]
          refine not_congr ⟨fun h => ⟨_, h1, h2, h3, ⟨rfl, by omega⟩, h⟩, fun h => ?_⟩
          obtain ⟨exp, -, -, -, ⟨rfl, -⟩, h⟩ := h
          exact h

/-- A purchase that fails costs nothing, unless it is one whose cost is taken before its exp is refused. -/
theorem expPurchase_iff (bag : HeroBag) (request : ExpPurchase) :
    CostsNothing bag (request.buy t player bag) ↔ ¬ request.InVain t player bag := by
  cases request with
  | addExp gid exp type uuid => exact heroAddExp_iff t player bag gid exp type uuid
  | addExpByItem uuid type cfgId => exact heroAddExpByItem_iff t player bag uuid type cfgId

def twoLevels : ExpTables where
  equip := fun _ => none
  upgrade := fun _ => some [none, some ⟨1, 41, 90002, 0⟩, some ⟨2, 41, 90002, 100⟩]
  common := fun _ => none
  openLev := fun _ => none
  consume := fun _ => none
  packages := fun _ => none
  stageMax := fun _ _ => none
  toLevel := fun exp _ _ => if exp ≥ 100 then 2 else 1
  expByLevel := fun level _ _ => if level = 1 then 0 else 100
  expConfig := fun _ => none

def twoHeroes : HeroBag where
  uuid := fun u =>
    if u = 1 then some ⟨⟨1, 11000, 1, 1, 0⟩, 0, 0, 0⟩
    else if u = 2 then some ⟨⟨2, 11001, 1, 1, 0⟩, 50, 0, 0⟩
    else none
  m := fun gid => if gid = 11000 then some 1 else if gid = 11001 then some 2 else none
  inventory := ⟨fun id => if id = 90002 then some 100 else none, fun _ _ => none, fun _ => 0⟩

/-- With 60 exp more the hero would be ahead of the leading role: the exp is refused and the coins are gone. -/
theorem heroAddExp_takes_sixty :
    (ExpPurchase.buy twoLevels ⟨100000, true, fun _ => false⟩ twoHeroes (.addExp 11001 60 0 2)).1 = retMaxLevel ∧
      (ExpPurchase.buy twoLevels ⟨100000, true, fun _ => false⟩ twoHeroes (.addExp 11001 60 0 2)).2.inventory.item 90002 =
        some 40 ∧
      ¬ CostsNothing twoHeroes
        (ExpPurchase.buy twoLevels ⟨100000, true, fun _ => false⟩ twoHeroes (.addExp 11001 60 0 2)) := by
  have hret : (ExpPurchase.buy twoLevels ⟨100000, true, fun _ => false⟩ twoHeroes (.addExp 11001 60 0 2)).1 =
      retMaxLevel := by decide +kernel
  have hitem : (ExpPurchase.buy twoLevels ⟨100000, true, fun _ => false⟩ twoHeroes
      (.addExp 11001 60 0 2)).2.inventory.item 90002 = some 40 := by decide +kernel
  refine ⟨hret, hitem, fun h => ?_⟩
  have hne : (ExpPurchase.buy twoLevels ⟨100000, true, fun _ => false⟩ twoHeroes (.addExp 11001 60 0 2)).1 ≠
      retSuccess := by
    rw [hret]
    decide
  rw [h hne] at hitem
  exact absurd hitem (by decide +kernel)

end CServer.Logic
