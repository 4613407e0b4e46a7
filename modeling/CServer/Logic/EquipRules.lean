import CServer.Logic.EquipInvest
import CServer.Logic.TalentInfo

/-! # `world/logic/aL.c`: what the operations on equips look up

Strengthening an equip and wearing it read the same tables and the same heroes. An equip is of the first kind, of the
second, or of both, by the bits of its type; the first six positions of a hero belong to the second kind.

A sum or product of `int`s wraps, as does one with an `unsigned int` in it.
-/
namespace CServer.Logic
open CServer.Lib CServer.Modules

/-! ## The code -/

def retMaxLevel : ℤ := 6
def retResources : ℤ := 8
def retFull : ℤ := 9
def retPermission : ℤ := 11

def roleLevelUp : ℤ := 1104
def roleEquipLevelUp : ℤ := 1121
def roleEquipIndex : ℤ := 1124
def roleEquipLevelUp2 : ℤ := 1141
def roleEquipIndex2 : ℤ := 1143
def roleEquipGroup : ℤ := 1180
def roleEquipGroup2 : ℤ := 1190

structure CommonCfg where
  para1 : ℤ
  para2 : ℤ

structure OpenLevConfig where
  openLev : ℤ
  conditionType : ℤ
  conditionId : ℤ
  conditionCount : ℤ

structure UpgradeConfig where
  level : ℤ
  consumeType : ℤ
  consumeId : ℤ
  consumeValue : ℤ

/-- The members of `struct EquipConfig` that strengthening and wearing read. -/
structure EquipRule where
  type : ℤ
  quality : ℤ
  levelUpType : ℤ
  maxLevel : ℤ
  equipLevel : ℤ

/-- The configuration. The levels of an upgrade type are an array, in which some may be missing. -/
structure EquipTables where
  equip : ℤ → Option EquipRule
  upgrade : ℤ → Option (List (Option UpgradeConfig))
  common : ℤ → Option CommonCfg
  openLev : ℤ → Option OpenLevConfig
  consume : ℤ → Option CostConfig
  packages : ConsumePackages

/-- `set->uuid` and `set->m`: the heroes, and the one that is found for a kind. -/
structure HeroSet where
  heroes : List Hero
  uuids : DistinctKeys Hero.uuid heroes
  uuid_pos : ∀ hero ∈ heroes, 0 < hero.uuid
  m : ℕ → Option Hero
  m_mem : ∀ gid hero, m gid = some hero → hero ∈ heroes

/-- What is read of the player: `player_get_level`, the quests that have a record, `total_star` and the heroes. -/
structure EquipPlayer extends HeroSet where
  pid : ℕ
  level : ℤ
  questCount : ℤ → Option ℕ
  totalStar : ℤ

structure EquipBag where
  m : ℕ → Option OwnedEquip
  inventory : Inventory

def isEquipType1 (type : ℤ) : Bool := decide (type / 64 % 64 ≠ 0)

def isEquipType2 (type : ℤ) : Bool := decide (type % 64 ≠ 0)

def HeroSet.heroGet (set : HeroSet) (gid uuid : ℕ) : Option Hero :=
  if uuid ≠ 0 then lookup Hero.uuid uuid set.heroes else set.m gid

def checkOpenlevConfig (t : EquipTables) (player : EquipPlayer) (_id : ℤ) : Bool :=
  match t.openLev roleLevelUp with
  | none => true
  | some cfg =>
    if player.level < cfg.openLev then false
    else if cfg.conditionType = 1 then
      if cfg.conditionId ≠ 0 then
        match player.questCount cfg.conditionId with
        | none => false
        | some count => decide (count ≠ 0)
      else true
    else if cfg.conditionType = 2 then decide (cfg.conditionCount ≤ player.totalStar)
    else true

/-- `para1` of a common configuration, where it exists. -/
def EquipTables.factor (t : EquipTables) (id : ℤ) : Option ℤ := (t.common id).map CommonCfg.para1

theorem HeroSet.heroGet_mem {set : HeroSet} {gid uuid : ℕ} {hero : Hero} (h : set.heroGet gid uuid = some hero) :
    hero ∈ set.heroes := by
  unfold HeroSet.heroGet at h
  by_cases hu : uuid ≠ 0
  · rw [if_pos hu] at h
    exact (lookup_some h).1
  · rw [if_neg hu] at h
    exact set.m_mem gid hero h

theorem HeroSet.heroGet_uuid {set : HeroSet} {gid uuid : ℕ} {hero : Hero} (h : set.heroGet gid uuid = some hero)
    (gid' : ℕ) : set.heroGet gid' hero.uuid = some hero := by
  have hmem := HeroSet.heroGet_mem h
  have hpos := set.uuid_pos hero hmem
  unfold HeroSet.heroGet
  rw [if_pos (by omega)]
  exact lookup_of_mem set.uuids hmem

/-! ## Costs -/

theorem heroItemRemove_refused {inv : Inventory} {uuid id value : ℕ} {r : ℤ × Inventory}
    (hr : inv.heroItemRemove uuid id value = r) (h : r.1 ≠ 0) : r.2 = inv := by
  unfold Inventory.heroItemRemove at hr
  split at hr
  · exact hr ▸ rfl
  split at hr
  · exact hr ▸ rfl
  cases hg : inv.heroItemGet uuid id with
  | none =>
    simp only [hg] at hr
    exact hr ▸ rfl
  | some count =>
    simp only [hg] at hr
    split at hr
    · exact hr ▸ rfl
    · exact absurd (hr ▸ rfl) h

theorem consumePackage_refused {packages : ConsumePackages} {inv : Inventory} {id value : ℕ} {r : ℤ × Inventory}
    (hr : consumePackage packages inv id value = r) (h : r.1 ≠ retSuccess) : r.2 = inv := by
  unfold consumePackage at hr
  split at hr
  · exact hr ▸ rfl
  · split at hr
    · exact hr ▸ rfl
    · exact absurd (hr ▸ rfl) h

theorem checkAndConsume_refused {packages : ConsumePackages} {pid : ℕ} {inv : Inventory} {uuid : ℕ} {c : Cost}
    {r : ℤ × Inventory} (hr : checkAndConsume packages pid inv uuid c = r) (h : r.1 ≠ retSuccess) : r.2 = inv := by
  unfold checkAndConsume at hr
  split at hr
  · exact hr ▸ rfl
  split at hr
  · exact hr ▸ rfl
  split at hr
  case isTrue =>
    split at hr
    · exact hr ▸ rfl
    · split at hr
      · exact hr ▸ rfl
      · exact absurd (hr ▸ rfl) h
  case isFalse =>
    split at hr
    case isTrue =>
      split at hr
      next ret inv' hrem =>
        split at hr
        case isTrue hne =>
          have hkept := heroItemRemove_refused hrem hne
          exact hr ▸ hkept
        case isFalse => exact absurd (hr ▸ rfl) h
    case isFalse =>
      split at hr
      case isTrue => exact consumePackage_refused hr h
      case isFalse => exact hr ▸ rfl

end CServer.Logic
