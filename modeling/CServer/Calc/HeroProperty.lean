import CServer.Lib.Tally
import CServer.Logic.EquipRules
import Mathlib.Data.BitVec

/-! # `world/calc/calc.c`: the properties of a hero

`calc_hero_property` adds up what a hero has from configuration, talents, equips, suits, buffs and fashion in a list of
property types, in front of which a type is put when it first occurs. The suits of the equips are collected in an array
of 84 cells on the way.

Property values are 32-bit words. What is computed in floating point is a parameter: `scale` is a value times a ratio of
10000, `affixValue` is `calc_affix_value`.
-/
namespace CServer.Calc
open CServer.Lib CServer.Logic Function

/-! ## Configuration and player -/

/-- A type and a value, as in `struct HeroProperty` and `struct CommonProperty`. -/
abbrev Property := ℤ × BitVec 32

structure HeroConfig where
  id : ℤ
  weapon : ℤ
  propertys : List Property
  extProperty : List Property
  talentId : ℤ
  fightTalentId : ℤ
  workTalentId : ℤ

structure WeaponConfig where
  propertys : List Property
  talentId : ℤ

structure EvoConfig where
  propertys : List Property
  slot : List Property

structure TalentEffect where
  type : ℤ
  value : BitVec 32
  incr : BitVec 32

structure TalentSkillConfig where
  pointLimit : ℤ
  effect : List TalentEffect

structure SkillGroupConfig where
  talentType : ℤ
  talentId : ℤ

structure EquipConfig where
  propertys : List Property
  levelupPropertys : List Property
  suit : ℤ
  quality : ℤ

structure EquipAffixConfig where
  type : ℤ
  levelRatio : ℤ
  suitId : ℤ
  quality : ℤ

structure CommonCfg where
  para1 : ℤ
  para2 : ℤ

structure BuffConfig where
  type : ℤ
  value : BitVec 32
  heroId : ℤ

structure CalcTables where
  hero : ℤ → Option HeroConfig
  weapon : ℤ → Option WeaponConfig
  levelProperty : ℤ → Option (List Property)
  evo : ℤ → ℕ → Option EvoConfig
  star : ℤ → ℕ → Option (List Property)
  talentSkill : ℤ → ℕ → Option TalentSkillConfig
  skillGroup : ℤ → List SkillGroupConfig
  equip : ℤ → Option EquipConfig
  equipAffix : ℤ → Option EquipAffixConfig
  equipSuit : ℤ → ℕ → ℕ → Option (Property × Property)
  common : ℕ → Option CommonCfg
  buff : ℕ → Option BuffConfig
  fashion : ℤ → ℕ → Option Property
  scale : ℤ → ℤ → BitVec 32
  affixValue : EquipAffixConfig → BitVec 32 → BitVec 32 → BitVec 32 → BitVec 32

structure Hero where
  uuid : ℕ
  gid : ℤ
  level : BitVec 32
  weaponLevel : BitVec 32
  stage : ℤ
  stageSlot : BitVec 32
  weaponStage : ℤ
  weaponStageSlot : BitVec 32
  star : ℤ
  weaponStar : ℤ

structure AffixInfo where
  id : ℤ
  value : BitVec 32
  grow : BitVec 32

structure HeroEquip where
  gid : ℤ
  level : BitVec 32
  affix : ℕ → AffixInfo

structure PlayerBuff where
  buffId : ℕ
  value : BitVec 32

structure HeroItem where
  id : ℕ
  uid : ℕ
  status : ℕ

/-- What `talent_get` and `equip_get_by_hero` find for the hero, the buffs that `buff_next` visits, and the hero items. The
text of a talent is given by its characters. -/
structure PlayerView where
  talent : ℤ → Option (ℕ → ℤ)
  equipAt : ℤ → Option HeroEquip
  buffs : List PlayerBuff
  items : List HeroItem

def heroPropertyAdd (head : List Property) (c : Property) : List Property :=
  if c.1 = 0 then head else tallyAdd head c

/-- One `hero_property_add` after another, the head kept. -/
def addAll (head cs : List Property) : List Property := cs.foldl heroPropertyAdd head

/-! ## What is added, stage by stage -/

variable (t : CalcTables)

def calcBase (hero : Hero) : List Property :=
  match t.hero hero.gid with
  | none => []
  | some cfg => cfg.propertys ++ cfg.extProperty ++ ((t.weapon cfg.weapon).map WeaponConfig.propertys).getD []

def calcLevel (gid : ℤ) (level : BitVec 32) : List Property :=
  match t.levelProperty gid with
  | none => []
  | some cfg => cfg.map fun c => (c.1, c.2 * level)

def calcStage (gid stage : ℤ) (slot : BitVec 32) : List Property :=
  (List.range (stage + 1).toNat).flatMap fun i =>
    match t.evo gid i with
    | none => []
    | some cfg => cfg.propertys ++ (cfg.slot.zipIdx.filter fun c => (i : ℤ) < stage ∨ slot.getLsbD c.2).map Prod.fst

def calcStar (gid star : ℤ) : List Property :=
  (List.range' 1 star.toNat).flatMap fun i => (t.star gid i).getD []

def talentMaximumDataSize : ℕ := 45

def calcTalent (talent : Option (ℕ → ℤ)) (talentid : ℤ) : List Property :=
  match talent with
  | none => []
  | some data =>
    (List.range talentMaximumDataSize).flatMap fun i =>
      let val := data i - 48
      if val > 0 then
        match t.talentSkill talentid (i + 1) with
        | none => []
        | some cfg =>
          let val := if val > cfg.pointLimit then cfg.pointLimit else val
          cfg.effect.map fun e => (e.type, e.value + e.incr * BitVec.ofInt 32 (val - 1))
      else []

/-- `hero_property_calc_level`, `hero_property_calc_stage` and `hero_property_calc_star`. -/
def calcGrowth (hero : Hero) : List Property :=
  match t.hero hero.gid with
  | none => []
  | some cfg =>
    calcLevel t hero.gid hero.level ++ calcLevel t cfg.weapon hero.weaponLevel ++
    (calcStage t hero.gid hero.stage hero.stageSlot ++ calcStage t cfg.weapon hero.weaponStage hero.weaponStageSlot) ++
    (calcStar t hero.gid hero.star ++ calcStar t cfg.weapon hero.weaponStar)

def talentTypeHero : ℤ := 1
def talentTypeWeapon : ℤ := 2
def talentTypeHeroFight : ℤ := 4
def talentTypeHeroWork : ℤ := 5

def heroGetSelectedSkill : Option Property := none

def calcTalents (hero : Hero) (player : PlayerView) : List Property :=
  match t.hero hero.gid with
  | none => []
  | some cfg =>
    calcTalent t (player.talent talentTypeHero) cfg.talentId ++
    calcTalent t (player.talent talentTypeHeroFight) cfg.fightTalentId ++
    calcTalent t (player.talent talentTypeHeroWork) cfg.workTalentId ++
    ((t.weapon cfg.weapon).map fun wcfg => calcTalent t (player.talent talentTypeWeapon) wcfg.talentId).getD [] ++
    (t.skillGroup cfg.id).flatMap (fun group =>
      if group.talentType ≠ talentTypeWeapon then calcTalent t (player.talent group.talentType) group.talentId else []) ++
    heroGetSelectedSkill.toList

def equipPropertyPoolMax : ℕ := 6
def equipIntoBattleMax : ℕ := 12

def mergeRandomProperty (equip : HeroEquip) (ratio : ℤ) (n : ℕ) : List Property :=
  if (equip.affix n).id > 0 then
    match t.equipAffix (equip.affix n).id with
    | none => []
    | some cfg =>
      [(cfg.type, t.scale (t.affixValue cfg (equip.affix n).value (equip.affix n).grow equip.level).toInt ratio)]
  else []

def calcEquip (equip : HeroEquip) (ratio : ℤ) : List Property :=
  match t.equip equip.gid with
  | none => []
  | some cfg =>
    cfg.propertys.map (fun c => (c.1, t.scale c.2.toInt ratio)) ++
    cfg.levelupPropertys.map (fun c => (c.1, t.scale (c.2 * equip.level).toNat ratio)) ++
    (List.range' 1 equipPropertyPoolMax).flatMap (mergeRandomProperty t equip ratio)

def addonOf (i : ℕ) : ℤ × ℤ :=
  match (if isEquipType1 i then t.common 12 else none), (if isEquipType2 i then t.common 13 else none) with
  | some cfg, _ => (cfg.para2, cfg.para1)
  | none, some cfg => (cfg.para2, cfg.para1)
  | none, none => (0, 0)

def calcAddon (player : PlayerView) (ratio : ℤ) (i group : ℕ) : List Property :=
  match player.equipAt (group * 256 + i) with
  | none => []
  | some equip => calcEquip t equip ratio

/-! ## Suits -/

structure SuitIn where
  suit : ℤ
  quality : ℤ
  deriving DecidableEq

def SuitIn.zero : SuitIn := ⟨0, 0⟩

structure SuitOut where
  suit : ℤ
  quality : ℕ → ℕ

def SuitOut.zero : SuitOut := ⟨0, fun _ => 0⟩

def suitSlotCount : ℕ := equipIntoBattleMax + equipIntoBattleMax * equipPropertyPoolMax

def writeSuit (cells : ℕ → SuitIn) (c : ℕ) (s : Option SuitIn) : Except Fault (ℕ → SuitIn) :=
  match s with
  | none => .ok cells
  | some s => if c < suitSlotCount then .ok (update cells c s) else .error .outOfBounds

def equipSuit (equip : HeroEquip) : Option SuitIn :=
  (t.equip equip.gid).map fun cfg => ⟨cfg.suit, cfg.quality⟩

def affixSuit (equip : HeroEquip) (j : ℕ) : Option SuitIn :=
  if (equip.affix (j + 1)).id = 0 then none
  else (t.equipAffix (equip.affix (j + 1)).id).map fun cfg => ⟨cfg.suitId, cfg.quality⟩

def affixCell (i j : ℕ) : ℕ := i * equipPropertyPoolMax + j

def calcSuitOne (n : ℕ) (out : ℕ → SuitOut) (s : SuitIn) : ℕ → SuitOut :=
  if s.suit = 0 then out
  else
    match (List.range n).find? fun j => (out j).suit = s.suit ∨ (out j).suit = 0 with
    | none => out
    | some j => update out j
        ⟨s.suit, fun k => if (k : ℤ) ≤ s.quality ∧ k < 10 then (out j).quality k + 1 else (out j).quality k⟩

def calcSuit (cells : ℕ → SuitIn) (n : ℕ) : ℕ → SuitOut :=
  (List.range n).foldl (fun out i => calcSuitOne n out (cells i)) fun _ => .zero

/-- The innermost pass over a suit: with `count_quality` and the properties so far, for one number `k` of pieces. -/
def suitCountStep (suit : ℤ) (j : ℕ) (acc : (ℕ → ℕ) × List Property) (k : ℕ) :
    Except Fault ((ℕ → ℕ) × List Property) :=
  if 10 ≤ k then .error .outOfBounds
  else if acc.1 k ≠ 0 then .ok acc
  else
    match t.equipSuit suit j k with
    | none => .ok acc
    | some cfg => .ok (update acc.1 k j, acc.2 ++ [cfg.1, cfg.2])

def suitCounts (n : ℕ) : List ℕ := (List.range' 2 (n - 1)).reverse

def suitCellProperties (out : SuitOut) : Except Fault (List Property) :=
  if out.suit = 0 then .ok []
  else do
    let acc ← (List.range 10).reverse.foldlM
      (fun acc j => (suitCounts (out.quality j)).foldlM (suitCountStep t out.suit j) acc) ((fun _ => 0), [])
    return acc.2

def suitProperties (out : ℕ → SuitOut) : Except Fault (List Property) :=
  (List.range suitSlotCount).foldlM (fun acc i => do
    let cs ← suitCellProperties t (out i)
    return acc ++ cs) []

/-! ## The function -/

def calcBuff (hero : Hero) (player : PlayerView) : List Property :=
  player.buffs.flatMap fun buff =>
    match t.buff buff.buffId with
    | none => []
    | some cfg => if cfg.heroId = 0 ∨ cfg.heroId = hero.gid then [(cfg.type, cfg.value * buff.value)] else []

def calcFashion (hero : Hero) (player : PlayerView) : List Property :=
  player.items.flatMap fun item =>
    if item.status = 1 ∧ item.uid = hero.uuid then (t.fashion hero.gid item.id).toList else []

structure CalcState where
  head : List Property
  suitIn : ℕ → SuitIn

/-- The loop over the groups: the heads that `calc_equip_property` answers are dropped. -/
def addGroups (player : PlayerView) (i : ℕ) (head : List Property) : List Property :=
  let (count, ratio) := addonOf t i
  if ratio > 0 then
    (List.range' 1 count.toNat).foldl (fun head group =>
      tallySeen head (addAll head (calcAddon t player ratio i group))) head
  else head

def calcSlot (player : PlayerView) (s : CalcState) (i : ℕ) : Except Fault CalcState :=
  match player.equipAt i with
  | none => .ok s
  | some equip => do
    let head := addGroups t player i (addAll s.head (calcEquip t equip 10000))
    let cells ← writeSuit s.suitIn (i - 1) (equipSuit t equip)
    let cells ← (List.range equipPropertyPoolMax).foldlM
      (fun cells j => writeSuit cells (affixCell i j) (affixSuit t equip j)) cells
    return ⟨head, cells⟩

def calcSlots (player : PlayerView) (head : List Property) : Except Fault CalcState :=
  (List.range' 1 equipIntoBattleMax).foldlM (calcSlot t player) ⟨head, fun _ => .zero⟩

def calcBefore (hero : Hero) (player : PlayerView) : List Property :=
  calcBase t hero ++ calcGrowth t hero ++ calcTalents t hero player

/-- `player` is none where `player_get` finds nobody. -/
def calcHeroProperty (hero : Hero) (player : Option PlayerView) (head : List Property) :
    Except Fault (List Property) :=
  match player with
  | none => .ok head
  | some player => do
    let s ← calcSlots t player (addAll head (calcBefore t hero player))
    let suits ← suitProperties t (calcSuit s.suitIn suitSlotCount)
    return addAll (addAll s.head suits) (calcBuff t hero player ++ calcFashion t hero player)

end CServer.Calc
