import CServer.Logic.EquipRules

/-! # `world/logic/aL.c`: strengthening an equip

A request asks for so many levels more, for so much exp more, or for both: the exp of the level asked for, and the exp
on top of it, are what is paid. What the equip then has is the level of its exp (`calc_level_by_exp`).

The highest level of the equip is compared with the level it has, the cap of the player's level with the level asked for,
and that of a hero's level is looked up for a hero with the uuid of the equip.
-/
namespace CServer.Logic
open CServer.Lib CServer.Modules Function

/-! ## The code -/

structure LevelTarget where
  level : ℤ
  exp : ℤ
  upgrade : UpgradeConfig

namespace EquipTables

variable (t : EquipTables)

def getUpgradeConfig (level type : ℤ) : Option UpgradeConfig :=
  match t.upgrade type with
  | none => none
  | some arr =>
    if level < 0 ∨ level ≥ arr.length then none
    else
      match arr.getD level.toNat none with
      | none => none
      | some cfg => if cfg.level = 0 then none else some cfg

/-- The loop of `calc_level_by_exp` from level `i` on; the array ends before the rounds do. -/
def calcLoop (t : EquipTables) (exp type : ℤ) : ℕ → ℕ → ℤ
  | 0, i => i - 1
  | rounds + 1, i =>
    match t.getUpgradeConfig i type with
    | none => i - 1
    | some cfg => if cfg.consumeValue > exp then i - 1 else calcLoop t exp type rounds (i + 1)

def calcLevelByExp (exp type : ℤ) : ℤ :=
  match t.getUpgradeConfig 1 type with
  | none => 0
  | some _ => t.calcLoop exp type ((t.upgrade type).getD []).length 1

def addLevels (type level : ℤ) (target : LevelTarget) : Option LevelTarget :=
  if level > 0 then
    let distLevel := toInt (target.level + level)
    (t.getUpgradeConfig distLevel type).map fun cfg => ⟨distLevel, cfg.consumeValue, cfg⟩
  else some target

def addExp (type exp : ℤ) (target : LevelTarget) : Option LevelTarget :=
  if exp > 0 then
    let distExp := toInt (target.exp + exp)
    let distLevel := t.calcLevelByExp distExp type
    (t.getUpgradeConfig distLevel type).map fun cfg => ⟨distLevel, distExp, cfg⟩
  else some target

def levelTarget (type level exp : ℤ) (equip : OwnedEquip) (upgradeCfg1 : UpgradeConfig) :
    Option LevelTarget :=
  (t.addLevels type level ⟨toInt equip.level, equip.exp, upgradeCfg1⟩).bind (t.addExp type exp)

end EquipTables

variable (t : EquipTables)

variable (player : EquipPlayer)

def levelUpOpen (type : ℤ) : Bool :=
  if isEquipType1 type then checkOpenlevConfig t player roleEquipLevelUp
  else if isEquipType2 type then checkOpenlevConfig t player roleEquipLevelUp2
  else true

def heroTooLow (uuid : ℕ) (distLevel : ℤ) : Bool :=
  match t.factor 17, player.heroGet 0 uuid with
  | some para1, some hero => decide (toUnsigned (hero.level * para1) < toUnsigned distLevel)
  | _, _ => false

def playerFactor : ℤ := (t.factor 16).getD 1

def levelUpCost (equip : OwnedEquip) (target : LevelTarget) : Cost :=
  CostConfig.pass ⟨target.upgrade.consumeType, target.upgrade.consumeId, target.exp - equip.exp⟩

def equipChangeExp (equip : OwnedEquip) (exp : ℤ) : OwnedEquip :=
  if equip.exp = exp then equip
  else { equip with
    level := match t.equip equip.gid with
      | some cfg => t.calcLevelByExp exp cfg.levelUpType
      | none => 1
    exp := exp }

def equipLevelUp (bag : EquipBag) (uuid : ℕ) (level exp : ℤ) : ℤ × EquipBag :=
  match bag.m uuid with
  | none => (retNotExist, bag)
  | some equip =>
    match t.equip equip.gid with
    | none => (retNotExist, bag)
    | some cfg =>
      if levelUpOpen t player cfg.type = false then (retPermission, bag)
      else if toUnsigned equip.level ≥ toUnsigned cfg.maxLevel then (retFull, bag)
      else
        match t.getUpgradeConfig (toInt equip.level) cfg.levelUpType with
        | none => (retFull, bag)
        | some upgradeCfg1 =>
          match t.levelTarget cfg.levelUpType level exp equip upgradeCfg1 with
          | none => (retFull, bag)
          | some target =>
            if upgradeCfg1.consumeType ≠ target.upgrade.consumeType ∨ upgradeCfg1.consumeId ≠ target.upgrade.consumeId then
              (retError, bag)
            else if target.exp = equip.exp then (retSuccess, bag)
            else if target.exp < equip.exp then (retParamError, bag)
            else if target.level > toInt (player.level * playerFactor t) then (retMaxLevel, bag)
            else if heroTooLow t player uuid target.level then (retMaxLevel, bag)
            else
              let r := checkAndConsume t.packages player.pid bag.inventory 0 (levelUpCost equip target)
              if r.1 ≠ retSuccess then (r.1, { bag with inventory := r.2 })
              else (retSuccess, ⟨update bag.m uuid (some (equipChangeExp t equip target.exp)), r.2⟩)

/-! ## What the caps are -/

def WornBy (equip : OwnedEquip) (hero : Hero) : Prop :=
  equip.heroUuid ≠ 0 ∧ player.heroGet 0 equip.heroUuid = some hero

structure WithinCaps (t : EquipTables) (player : EquipPlayer) (cfg : EquipRule) (equip : OwnedEquip) : Prop where
  own : equip.level ≤ cfg.maxLevel
  played : equip.level ≤ player.level * playerFactor t
  worn : ∀ hero para1, WornBy player equip hero → t.factor 17 = some para1 → equip.level ≤ hero.level * para1

/-- An equip that has been changed is within its caps; else nothing has changed. -/
def LevelCapped (bag : EquipBag) (uuid : ℕ) (level exp : ℤ) : Prop :=
  let r := equipLevelUp t player bag uuid level exp
  (r.1 = retSuccess ∧ r.2.m uuid ≠ bag.m uuid →
    ∃ equip cfg, r.2.m uuid = some equip ∧ t.equip equip.gid = some cfg ∧ WithinCaps t player cfg equip) ∧
  (¬ (r.1 = retSuccess ∧ r.2.m uuid ≠ bag.m uuid) → r.2 = bag)

structure LevelsUp (t : EquipTables) (player : EquipPlayer) (bag : EquipBag) (uuid : ℕ) (level exp : ℤ)
    (equip : OwnedEquip) (cfg : EquipRule) (target : LevelTarget) : Prop where
  held : bag.m uuid = some equip
  configured : t.equip equip.gid = some cfg
  opened : levelUpOpen t player cfg.type = true
  below : toUnsigned equip.level < toUnsigned cfg.maxLevel
  asked : ∃ upgradeCfg1, t.getUpgradeConfig (toInt equip.level) cfg.levelUpType = some upgradeCfg1 ∧
    t.levelTarget cfg.levelUpType level exp equip upgradeCfg1 = some target ∧
    upgradeCfg1.consumeType = target.upgrade.consumeType ∧ upgradeCfg1.consumeId = target.upgrade.consumeId
  more : equip.exp < target.exp
  played : target.level ≤ toInt (player.level * playerFactor t)
  heroed : heroTooLow t player uuid target.level = false
  paid : (checkAndConsume t.packages player.pid bag.inventory 0 (levelUpCost equip target)).1 = retSuccess

def NotReached (type exp : ℤ) (i : ℕ) : Prop :=
  ∀ cfg, t.getUpgradeConfig i type = some cfg → exp < cfg.consumeValue

def FallsShort (type exp cap : ℤ) : Prop :=
  ∃ i : ℕ, 1 ≤ i ∧ (i : ℤ) ≤ cap + 1 ∧ NotReached t type exp i

/-- A request that is granted asks for less exp than the level after the equip's highest one has; less than the one
after the player's cap where no exp is asked for, or the cap is no `int`; and less than the one after the cap of the hero that
wears the equip. -/
def LevelsBounded (bag : EquipBag) (uuid : ℕ) (level exp : ℤ) : Prop :=
  ∀ equip cfg target, LevelsUp t player bag uuid level exp equip cfg target →
    FallsShort t cfg.levelUpType target.exp cfg.maxLevel ∧
    (exp ≤ 0 ∨ toInt (player.level * playerFactor t) ≠ player.level * playerFactor t →
      FallsShort t cfg.levelUpType target.exp (player.level * playerFactor t)) ∧
    ∀ hero para1, WornBy player equip hero → t.factor 17 = some para1 →
      FallsShort t cfg.levelUpType target.exp (hero.level * para1)

/-! ## The level of an exp -/

section Levels
variable {t : EquipTables} {exp type cap : ℤ}

theorem getUpgradeConfig_end {i : ℕ} (h : ((t.upgrade type).getD []).length ≤ i) : t.getUpgradeConfig i type = none := by
  unfold EquipTables.getUpgradeConfig
  cases ht : t.upgrade type with
  | none => rfl
  | some arr =>
    rw [ht, Option.getD_some] at h
    simp only
    rw [if_pos (by omega)]

theorem notReached_le_iff {i : ℕ} (h : NotReached t type exp i) :
    (i : ℤ) - 1 ≤ cap ↔ ∃ j : ℕ, i ≤ j ∧ (j : ℤ) ≤ cap + 1 ∧ NotReached t type exp j := by
  constructor
  · intro hle
    exact ⟨i, le_refl i, by omega, h⟩
  · intro hj
    obtain ⟨j, hij, hjc, _⟩ := hj
    omega

theorem notReached_of_none {i : ℕ} (h : t.getUpgradeConfig i type = none) : NotReached t type exp i := by
  intro cfg hc
  rw [h] at hc
  cases hc

theorem calcLoop_le_iff (rounds i : ℕ) (h : ((t.upgrade type).getD []).length ≤ rounds + i) :
    t.calcLoop exp type rounds i ≤ cap ↔ ∃ j : ℕ, i ≤ j ∧ (j : ℤ) ≤ cap + 1 ∧ NotReached t type exp j := by
  induction rounds generalizing i with
  | zero =>
    have hnone : t.getUpgradeConfig i type = none := getUpgradeConfig_end (by omega)
    exact notReached_le_iff (notReached_of_none hnone)
  | succ rounds ih =>
    rw [EquipTables.calcLoop]
    cases hg : t.getUpgradeConfig i type with
    | none => exact notReached_le_iff (notReached_of_none hg)
    | some cfg =>
      simp only
      by_cases he : cfg.consumeValue > exp
      · rw [if_pos he]
        apply notReached_le_iff
        intro cfg' hc
        rw [hg] at hc
        cases hc
        exact he
      · rw [if_neg he]
        have hnext := ih (i + 1) (by omega)
        rw [hnext]
        constructor
        · intro hj
          obtain ⟨j, hij, hjc, hn⟩ := hj
          exact ⟨j, by omega, hjc, hn⟩
        · intro hj
          obtain ⟨j, hij, hjc, hn⟩ := hj
          -- level `i` itself is reached
          have hne : j ≠ i := by
            intro heq
            subst heq
            exact he (hn cfg hg)
          exact ⟨j, by omega, hjc, hn⟩

theorem calcLevelByExp_le_iff : t.calcLevelByExp exp type ≤ cap ↔ FallsShort t type exp cap := by
  unfold EquipTables.calcLevelByExp FallsShort
  cases hg : t.getUpgradeConfig 1 type with
  | none =>
    have hfirst : NotReached t type exp 1 := notReached_of_none hg
    have hstop : ((1 : ℕ) : ℤ) - 1 ≤ cap ↔ _ := notReached_le_iff hfirst
    simpa using hstop
  | some cfg => exact calcLoop_le_iff _ 1 (by omega)

end Levels

/-! ## Requests -/

section Requests
variable {t : EquipTables} {player : EquipPlayer} {bag : EquipBag} {uuid : ℕ} {level exp : ℤ}

theorem LevelsUp.grants {equip : OwnedEquip} {cfg : EquipRule} {target : LevelTarget}
    (h : LevelsUp t player bag uuid level exp equip cfg target) :
    equipLevelUp t player bag uuid level exp =
      (retSuccess, ⟨update bag.m uuid (some (equipChangeExp t equip target.exp)),
        (checkAndConsume t.packages player.pid bag.inventory 0 (levelUpCost equip target)).2⟩) := by
  obtain ⟨upgradeCfg1, hcfg, htarget, htype, hid⟩ := h.asked
  have hbelow := h.below
  have hmore := h.more
  have hplayed := h.played
  unfold equipLevelUp
  simp only [h.held, h.configured, hcfg, htarget]
  rw [if_neg (by rw [h.opened]; decide), if_neg (by omega), if_neg (by simp [htype, hid]), if_neg (by omega),
    if_neg (by omega), if_neg (by omega), if_neg (by rw [h.heroed]; decide), if_neg (by rw [h.paid]; simp)]

theorem equipLevelUp_else (h : ∀ equip cfg target, ¬ LevelsUp t player bag uuid level exp equip cfg target) :
    (equipLevelUp t player bag uuid level exp).2 = bag := by
  unfold equipLevelUp
  cases hheld : bag.m uuid with
  | none => rfl
  | some equip =>
    cases hconf : t.equip equip.gid with
    | none => simp only [hconf]
    | some cfg =>
      cases hcfg : t.getUpgradeConfig (toInt equip.level) cfg.levelUpType with
      | none =>
        simp only [hconf, hcfg]
        split
        · rfl
        · split
          · rfl
          · rfl
      | some upgradeCfg1 =>
        cases htarget : t.levelTarget cfg.levelUpType level exp equip upgradeCfg1 with
        | none =>
          simp only [hconf, hcfg, htarget]
          split
          · rfl
          · split
            · rfl
            · rfl
        | some target =>
          simp only [hconf, hcfg, htarget]
          by_cases hopen : levelUpOpen t player cfg.type = false
          · rw [if_pos hopen]
          rw [if_neg hopen]
          by_cases hbelow : toUnsigned equip.level ≥ toUnsigned cfg.maxLevel
          · rw [if_pos hbelow]
          rw [if_neg hbelow]
          by_cases hsame : upgradeCfg1.consumeType ≠ target.upgrade.consumeType ∨
              upgradeCfg1.consumeId ≠ target.upgrade.consumeId
          · rw [if_pos hsame]
          rw [if_neg hsame]
          by_cases heq : target.exp = equip.exp
          · rw [if_pos heq]
          rw [if_neg heq]
          by_cases hless : target.exp < equip.exp
          · rw [if_pos hless]
          rw [if_neg hless]
          by_cases hplayed : target.level > toInt (player.level * playerFactor t)
          · rw [if_pos hplayed]
          rw [if_neg hplayed]
          by_cases hhero : heroTooLow t player uuid target.level = true
          · rw [if_pos hhero]
          rw [if_neg hhero]
          by_cases hpaid : (checkAndConsume t.packages player.pid bag.inventory 0 (levelUpCost equip target)).1 ≠ retSuccess
          · rw [if_pos hpaid, checkAndConsume_refused rfl hpaid]
          · obtain ⟨htype, hid⟩ := not_or.mp hsame
            exact absurd
              { held := hheld
                configured := hconf
                opened := by simpa using hopen
                below := by omega
                asked := ⟨upgradeCfg1, hcfg, htarget, not_not.mp htype, not_not.mp hid⟩
                more := by omega
                played := by omega
                heroed := by simpa using hhero
                paid := not_not.mp hpaid }
              (h equip cfg target)

theorem levelTarget_level {type : ℤ} {equip : OwnedEquip} {upgradeCfg1 : UpgradeConfig} {target : LevelTarget}
    (h : t.levelTarget type level exp equip upgradeCfg1 = some target) (he : 0 < exp) :
    target.level = t.calcLevelByExp target.exp type := by
  unfold EquipTables.levelTarget at h
  obtain ⟨levels, _, h⟩ := Option.bind_eq_some_iff.mp h
  unfold EquipTables.addExp at h
  rw [if_pos he] at h
  obtain ⟨cfg, _, h⟩ := Option.map_eq_some_iff.mp h
  subst h
  rfl

theorem LevelsUp.within_iff {equip : OwnedEquip} {cfg : EquipRule} {target : LevelTarget}
    (h : LevelsUp t player bag uuid level exp equip cfg target) :
    WithinCaps t player cfg (equipChangeExp t equip target.exp) ↔
      FallsShort t cfg.levelUpType target.exp cfg.maxLevel ∧
      (exp ≤ 0 ∨ toInt (player.level * playerFactor t) ≠ player.level * playerFactor t →
        FallsShort t cfg.levelUpType target.exp (player.level * playerFactor t)) ∧
      ∀ hero para1, WornBy player equip hero → t.factor 17 = some para1 →
        FallsShort t cfg.levelUpType target.exp (hero.level * para1) := by
  have hmore := h.more
  have hchange : equipChangeExp t equip target.exp =
      { equip with level := t.calcLevelByExp target.exp cfg.levelUpType, exp := target.exp } := by
    unfold equipChangeExp
    rw [if_neg (by omega), h.configured]
  rw [hchange]
  constructor
  · intro hw
    refine ⟨calcLevelByExp_le_iff.mp hw.own, fun _ => calcLevelByExp_le_iff.mp hw.played, ?_⟩
    intro hero para1 hworn hpara
    exact calcLevelByExp_le_iff.mp (hw.worn hero para1 hworn hpara)
  · intro hb
    obtain ⟨hown, hplayed, hworn⟩ := hb
    refine ⟨calcLevelByExp_le_iff.mpr hown, ?_, ?_⟩
    · by_cases hasked : exp ≤ 0 ∨ toInt (player.level * playerFactor t) ≠ player.level * playerFactor t
      · exact calcLevelByExp_le_iff.mpr (hplayed hasked)
      · -- the cap has been compared with the level of the exp
        obtain ⟨hpos, hint⟩ := not_or.mp hasked
        obtain ⟨upgradeCfg1, _, htarget, _⟩ := h.asked
        have hlevel := levelTarget_level htarget (by omega)
        have hle := h.played
        rw [hlevel, not_not.mp hint] at hle
        exact hle
    · intro hero para1 hw hpara
      exact calcLevelByExp_le_iff.mpr (hworn hero para1 hw hpara)

theorem equipChangeExp_gid (t : EquipTables) (equip : OwnedEquip) (exp : ℤ) :
    (equipChangeExp t equip exp).gid = equip.gid := by
  unfold equipChangeExp
  split
  · rfl
  · rfl

theorem LevelsUp.changes {equip : OwnedEquip} {cfg : EquipRule} {target : LevelTarget}
    (h : LevelsUp t player bag uuid level exp equip cfg target) :
    (equipLevelUp t player bag uuid level exp).1 = retSuccess ∧
      (equipLevelUp t player bag uuid level exp).2.m uuid = some (equipChangeExp t equip target.exp) ∧
      (equipLevelUp t player bag uuid level exp).2.m uuid ≠ bag.m uuid := by
  have hheld : (equipLevelUp t player bag uuid level exp).2.m uuid = some (equipChangeExp t equip target.exp) := by
    rw [h.grants]
    exact update_self uuid _ bag.m
  refine ⟨by rw [h.grants], hheld, ?_⟩
  intro hsame
  rw [hheld, h.held] at hsame
  have hexp : (equipChangeExp t equip target.exp).exp = equip.exp := congrArg OwnedEquip.exp (Option.some.inj hsame)
  have hmore := h.more
  unfold equipChangeExp at hexp
  rw [if_neg (by omega)] at hexp
  simp only at hexp
  omega

/-- A request keeps the level within the caps, and changes nothing where it is not granted, exactly when it is bounded. -/
theorem levelCapped_iff (t : EquipTables) (player : EquipPlayer) (bag : EquipBag) (uuid : ℕ) (level exp : ℤ) :
    LevelCapped t player bag uuid level exp ↔ LevelsBounded t player bag uuid level exp := by
  constructor
  · intro hcapped equip cfg target h
    obtain ⟨hsuccess, hheld, hchanged⟩ := h.changes
    obtain ⟨equip', cfg', hheld', hconf, hw⟩ := hcapped.1 ⟨hsuccess, hchanged⟩
    rw [hheld] at hheld'
    cases hheld'
    rw [equipChangeExp_gid, h.configured] at hconf
    cases hconf
    exact h.within_iff.mp hw
  · intro hbounded
    by_cases hup : ∃ equip cfg target, LevelsUp t player bag uuid level exp equip cfg target
    · obtain ⟨equip, cfg, target, h⟩ := hup
      obtain ⟨hsuccess, hheld, hchanged⟩ := h.changes
      have hconf : t.equip (equipChangeExp t equip target.exp).gid = some cfg := by
        rw [equipChangeExp_gid, h.configured]
      have hw := h.within_iff.mpr (hbounded equip cfg target h)
      exact ⟨fun _ => ⟨_, cfg, hheld, hconf, hw⟩, fun hnot => absurd ⟨hsuccess, hchanged⟩ hnot⟩
    · have hstays : (equipLevelUp t player bag uuid level exp).2 = bag :=
        equipLevelUp_else fun equip cfg target h => hup ⟨equip, cfg, target, h⟩
      refine ⟨fun hchanged => ?_, fun _ => hstays⟩
      exact absurd (congrArg (fun b => EquipBag.m b uuid) hstays) hchanged.2

/-! ### An equip of level 1, whose highest level is 2 -/

def shortLadder : EquipTables where
  equip := fun _ => some ⟨64, 1, 1, 2, 1⟩
  upgrade := fun _ => some [none, some ⟨1, 41, 100, 0⟩, some ⟨2, 41, 100, 10⟩, some ⟨3, 41, 100, 20⟩, some ⟨4, 41, 100, 30⟩]
  common := fun _ => none
  openLev := fun _ => none
  consume := fun _ => none
  packages := fun _ => none

def climber : EquipPlayer where
  heroes := []
  uuids := List.nodup_nil
  uuid_pos := by simp
  m := fun _ => none
  m_mem := by simp
  pid := 100000
  level := 10
  questCount := fun _ => none
  totalStar := 0

def shortLadderBag : EquipBag :=
  ⟨fun uuid => if uuid = 7 then some ⟨⟨1, 100000, 0, 0⟩, 7, 1, 1, 0, fun _ => ⟨0, 0, 0⟩⟩ else none,
    ⟨fun id => if id = 100 then some 50 else none, fun _ _ => none, fun _ => 0⟩⟩

/-- Three levels more are granted, two above the highest. -/
theorem levelCapped_beyond_highest : ¬ LevelCapped shortLadder climber shortLadderBag 7 3 0 := by
  intro h
  have hlevel : ((equipLevelUp shortLadder climber shortLadderBag 7 3 0).2.m 7).map OwnedEquip.level = some 4 := by decide
  have hbefore : (shortLadderBag.m 7).map OwnedEquip.level = some 1 := by decide
  have hchanged : (equipLevelUp shortLadder climber shortLadderBag 7 3 0).2.m 7 ≠ shortLadderBag.m 7 := by
    intro hsame
    rw [hsame, hbefore] at hlevel
    simp at hlevel
  obtain ⟨equip, cfg, hheld, hconf, hw⟩ := h.1 ⟨by decide, hchanged⟩
  rw [hheld] at hlevel
  cases hconf
  have hcap : equip.level ≤ 2 := hw.own
  have hfour : equip.level = 4 := Option.some.inj hlevel
  omega

end Requests

end CServer.Logic
