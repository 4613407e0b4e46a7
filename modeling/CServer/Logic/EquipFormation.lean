import CServer.Logic.EquipRules

/-! # `world/logic/aL.c`: where an equip may be worn

A request puts an equip into a slot of a hero. The equip that is there goes to where the other one comes from if it may be worn
there, and into the bag if not.

Whether an equip may be worn in a place is asked of a hero (`checkEquipPlaceholder`); for the displaced equip it is asked
of `hero_get(player, equip->hero_uuid, 0)`, which looks for a hero of the kind that the uuid of the wearer would name. The
number of groups is computed there and not compared with anything.

`heroid`, which is stored with the uuid of the hero and not read, is left out. Who an equip is, its `uuid`, `gid` and
`level`, does not change while it is moved.
-/
namespace CServer.Logic
open CServer.Lib CServer.Modules Function
open Option hiding mem_map max_eq_left max_eq_right
open List hiding lookup set

/-! ## The code -/

structure EquipKind where
  uuid : ℕ
  gid : ℤ
  level : ℤ

structure FormationState where
  set : EquipSet
  inventory : Inventory

/-- What a request is answered from; `kinds` tells by its address who an equip is. -/
structure FormationWorld where
  tables : EquipTables
  player : EquipPlayer
  kinds : ℕ → EquipKind

def groupOf (placeholder : ℤ) : ℤ := placeholder / 256 % 256

def equipAt (set : EquipSet) (ptr : ℕ) : Option Equip := lookup Equip.ptr ptr set.list

namespace EquipTables

def para2 (t : EquipTables) (id : ℤ) : Option ℤ := (t.common id).map CommonCfg.para2

variable (t : EquipTables)

def battleCount : ℤ := equipInBattleCount (t.para2 12) (t.para2 13)

def maxEquipGroupCount (type : ℤ) : ℤ :=
  if isEquipType1 type then 1 + (t.para2 12).getD 0
  else if isEquipType2 type then 1 + (t.para2 13).getD 0
  else 1

/-- The level rules of `check_equip_placeholder`, where there is a hero. -/
def heroLevelFits (hero : Option Hero) (level : ℤ) (cfg : EquipRule) : Bool :=
  match hero with
  | none => true
  | some hero =>
    (match t.factor 17 with
      | none => true
      | some para1 => decide (toUnsigned (level * para1) ≤ toUnsigned hero.level)) &&
    decide (cfg.equipLevel ≤ toInt hero.level)

/-- The rest of `check_equip_placeholder`: the bit of the position; the group may be any. -/
def placeFits (cfg : EquipRule) (placeholder : ℤ) : Bool :=
  let pos := placeholder % 256
  if pos = 0 then true
  else if pos > equipIntoBattleMax then false
  else decide (cfg.type / 2 ^ (pos - 1).toNat % 2 ≠ 0)

def checkEquipPlaceholder (hero : Option Hero) (level : ℤ) (cfg : EquipRule) (placeholder : ℤ) : Bool :=
  t.heroLevelFits hero level cfg && placeFits cfg placeholder

def getEquipChangeCostConfig (cfg : EquipRule) : Option CostConfig :=
  let consumeConfig :=
    if isEquipType1 cfg.type then t.consume (cfg.quality + 10)
    else if isEquipType2 cfg.type then t.consume (cfg.quality + 20)
    else none
  consumeConfig.filter fun c => c.value > 0

def equipChangeCost (pid : ℕ) (inv : Inventory) (cfg : EquipRule) : ℤ × Inventory :=
  match t.getEquipChangeCostConfig cfg with
  | none => (retSuccess, inv)
  | some c => checkAndConsume t.packages pid inv 0 c.pass

def equipChangeCost2 (pid : ℕ) (inv : Inventory) (cfg1 cfg2 : EquipRule) : ℤ × Inventory :=
  match t.getEquipChangeCostConfig cfg1, t.getEquipChangeCostConfig cfg2 with
  | none, none => (retSuccess, inv)
  | some c1, none => checkAndConsume t.packages pid inv 0 c1.pass
  | none, some c2 => checkAndConsume t.packages pid inv 0 c2.pass
  | some c1, some c2 =>
    if c1.type = c2.type ∨ c1.id = c2.id then
      checkAndConsume t.packages pid inv 0 (CostConfig.pass ⟨c1.type, c1.id, c1.value + c2.value⟩)
    else if checkForConsume inv 0 c1.pass ≠ 0 then (-1, inv)
    else if checkForConsume inv 0 c2.pass ≠ 0 then (-1, inv)
    else
      let inv := (checkAndConsume t.packages pid inv 0 c2.pass).2
      (retSuccess, (checkAndConsume t.packages pid inv 0 c2.pass).2)

/-- What a move from one hero to another, or to and from the bag, costs; `oldCfg` is that of the displaced equip. -/
def formationCost (pid : ℕ) (inv : Inventory) (fromUuid toUuid : ℕ) (cfg : EquipRule)
    (oldCfg : Option EquipRule) : ℤ × Inventory :=
  if fromUuid = 0 then
    match oldCfg with
    | some oldCfg => t.equipChangeCost pid inv oldCfg
    | none => (retSuccess, inv)
  else if fromUuid = toUuid then (retSuccess, inv)
  else
    match oldCfg with
    | some oldCfg => t.equipChangeCost2 pid inv cfg oldCfg
    | none => t.equipChangeCost pid inv cfg

end EquipTables

def slotOpenLevelCfgId (pos : ℤ) : ℤ := if pos ≤ 6 then roleEquipIndex2 + (pos - 1) else roleEquipIndex + (pos - 7)

def formationOpen (w : FormationWorld) (newPlace : ℤ) : Bool :=
  let pos := newPlace % 256
  if 0 < pos ∧ pos < 13 then
    checkOpenlevConfig w.tables w.player ((if pos ≤ 6 then roleEquipGroup2 else roleEquipGroup) + groupOf newPlace) &&
      checkOpenlevConfig w.tables w.player (slotOpenLevelCfgId pos)
  else decide (pos = 0)

namespace FormationWorld
variable (w : FormationWorld)

def cfgOf (e : Equip) : Option EquipRule := w.tables.equip (w.kinds e.ptr).gid

variable (set : EquipSet)

def equipGet (uuid : ℕ) : Option Equip := set.list.find? fun e => (w.kinds e.ptr).uuid = uuid

/-- `check_equip_placeholder` of an equip with this configuration. -/
def check (hero : Option Hero) (e : Equip) (cfg : EquipRule) (placeholder : ℤ) : Bool :=
  w.tables.checkEquipPlaceholder hero (w.kinds e.ptr).level cfg placeholder

/-- `cur_hero`: the uuid of the wearer is passed as the kind of hero. -/
def curHero (equip : Equip) : Option Hero :=
  if equip.heroUuid ≠ 0 then w.player.heroGet (toUnsigned equip.heroUuid) 0 else none

/-- `equip_get_by_hero`; what the slot has is an address. -/
def equipGetByHero (heroUuid : ℕ) (pos : ℤ) : Except Fault (Option Equip) :=
  match set.getEquipFromHero w.tables.battleCount heroUuid pos with
  | none => .ok none
  | some ptr =>
    match equipAt set ptr with
    | none => .error .outOfBounds
    | some e => .ok (some e)

def changePos (ptr : ℕ) (bag : ℕ) (pos : ℤ) : Except Fault EquipSet :=
  match equipAt set ptr with
  | none => .error .outOfBounds
  | some e => set.equipChangePos w.tables.battleCount e bag pos

def moveTo (equip old : Equip) (oldCfg : EquipRule) : ℕ × ℤ :=
  if w.check (w.curHero equip) old oldCfg equip.placeholder then (equip.heroUuid, equip.placeholder) else (0, 0)

def exchange (equip : Equip) (heroUuid : ℕ) (newPlace : ℤ) (old : Option (Equip × EquipRule)) :
    Except Fault EquipSet :=
  match old with
  | none => w.changePos set equip.ptr heroUuid newPlace
  | some (old, oldCfg) => do
    let set ← w.changePos set old.ptr 0 0
    let set ← w.changePos set equip.ptr heroUuid newPlace
    w.changePos set old.ptr (w.moveTo equip old oldCfg).1 (w.moveTo equip old oldCfg).2

variable (s : FormationState)

/-- `equip_change_pos` to the bag, for an equip that is worn. -/
def toBag (equip : Equip) (cfg : EquipRule) : Except Fault (ℤ × FormationState) :=
  if equip.heroUuid ≠ 0 then
    let r := w.tables.equipChangeCost w.player.pid s.inventory cfg
    if r.1 ≠ 0 then .ok (retResources, { s with inventory := r.2 })
    else do
      let set ← w.changePos s.set equip.ptr 0 0
      return (retSuccess, ⟨set, r.2⟩)
  else .ok (retSuccess, s)

def takeOld (heroUuid : ℕ) (newPlace : ℤ) : Except Fault (Option (Equip × EquipRule) × EquipSet) := do
  let old ← w.equipGetByHero set heroUuid newPlace
  match old with
  | none => return (none, set)
  | some old =>
    match w.cfgOf old with
    | some oldCfg => return (some (old, oldCfg), set)
    | none => do
      let set ← w.changePos set old.ptr 0 0
      return (none, set)

def wear (equip : Equip) (cfg : EquipRule) (hero : Hero) (newPlace : ℤ) :
    Except Fault (ℤ × FormationState) :=
  if w.check (some hero) equip cfg newPlace = false then .ok (retError, s)
  else do
    let (old, set) ← w.takeOld s.set hero.uuid newPlace
    let r := w.tables.formationCost w.player.pid s.inventory equip.heroUuid hero.uuid cfg (old.map Prod.snd)
    if r.1 ≠ 0 then return (retResources, ⟨set, r.2⟩)
    else do
      let set ← w.exchange set equip hero.uuid newPlace old
      return (retSuccess, ⟨set, r.2⟩)

def updateFightFormation (uuid : ℕ) (heroid newPlace : ℤ) (heroUuid : ℕ) :
    Except Fault (ℤ × FormationState) :=
  if formationOpen w newPlace = false then .ok (retPermission, s)
  else
    match w.equipGet s.set uuid with
    | none => .ok (retNotExist, s)
    | some equip =>
      let hero := if heroid ≠ 0 ∨ heroUuid ≠ 0 then w.player.heroGet (toUnsigned heroid) heroUuid else none
      if (heroid ≠ 0 ∨ heroUuid ≠ 0) ∧ hero = none then .ok (retError, s)
      else
        let heroUuid := (hero.map Hero.uuid).getD 0
        if equip.heroUuid = heroUuid ∧ equip.placeholder = newPlace then .ok (retSuccess, s)
        else
          match w.cfgOf equip with
          | none => .ok (retError, s)
          | some cfg =>
            match hero with
            | none => w.toBag s equip cfg
            | some hero => if newPlace % 256 = 0 then w.toBag s equip cfg else w.wear s equip cfg hero newPlace

/-! ## The rules -/

/-- An equip that is worn may be worn there by the hero that wears it, in a group of those configured for its type. -/
def WornRight (e : Equip) : Prop :=
  ∃ hero cfg, w.player.heroGet 0 e.heroUuid = some hero ∧ w.cfgOf e = some cfg ∧
    w.check (some hero) e cfg e.placeholder = true ∧ groupOf e.placeholder < w.tables.maxEquipGroupCount cfg.type

structure FormationOk (set : EquipSet) : Prop where
  right : ∀ e ∈ set.list, e.heroUuid ≠ 0 → w.WornRight e
  apart : ∀ e ∈ set.list, ∀ e' ∈ set.list, e.heroUuid ≠ 0 → e.heroUuid = e'.heroUuid →
    e.placeholder = e'.placeholder → e.ptr = e'.ptr

/-- After a request that succeeds the rules hold. -/
def FormationKept (uuid : ℕ) (heroid newPlace : ℤ) (heroUuid : ℕ) : Prop :=
  ∀ s', w.updateFightFormation s uuid heroid newPlace heroUuid = .ok (retSuccess, s') → w.FormationOk s'.set

def slotHolder (heroUuid : ℕ) (pos : ℤ) : Option Equip :=
  (set.getEquipFromHero w.tables.battleCount heroUuid pos).bind fun ptr => equipAt set ptr

def holderCfg (heroUuid : ℕ) (pos : ℤ) : Option (Equip × EquipRule) :=
  (w.slotHolder set heroUuid pos).bind fun old => (w.cfgOf old).map fun oldCfg => (old, oldCfg)

structure WearRequest (s : FormationState) (uuid : ℕ) (heroid newPlace : ℤ) (heroUuid : ℕ) (equip : Equip)
    (cfg : EquipRule) (hero : Hero) : Prop where
  opened : formationOpen w newPlace = true
  held : w.equipGet s.set uuid = some equip
  asked : heroid ≠ 0 ∨ heroUuid ≠ 0
  found : w.player.heroGet (toUnsigned heroid) heroUuid = some hero
  moves : ¬ (equip.heroUuid = hero.uuid ∧ equip.placeholder = newPlace)
  configured : w.cfgOf equip = some cfg
  place : newPlace % 256 ≠ 0
  fits : w.check (some hero) equip cfg newPlace = true
  paid : (w.tables.formationCost w.player.pid s.inventory equip.heroUuid hero.uuid cfg
    ((w.holderCfg s.set hero.uuid newPlace).map Prod.snd)).1 = retSuccess

/-- The group asked for is one of those configured for the equip. Where the equip comes from a hero, and another equip is
in the slot that is found fit for that place, the hero is of the level for it, and the group is one of those configured for it. -/
def FormationCareful (uuid : ℕ) (heroid newPlace : ℤ) (heroUuid : ℕ) : Prop :=
  ∀ equip cfg hero, w.WearRequest s uuid heroid newPlace heroUuid equip cfg hero →
    groupOf newPlace < w.tables.maxEquipGroupCount cfg.type ∧
    ∀ old oldCfg, w.holderCfg s.set hero.uuid newPlace = some (old, oldCfg) → old.ptr ≠ equip.ptr → equip.heroUuid ≠ 0 →
      w.check (w.curHero equip) old oldCfg equip.placeholder = true →
      (∀ wearer, w.player.heroGet 0 equip.heroUuid = some wearer →
        w.tables.heroLevelFits (some wearer) (w.kinds old.ptr).level oldCfg = true) ∧
      groupOf equip.placeholder < w.tables.maxEquipGroupCount oldCfg.type

/-! ## Places and slots -/

section Places
variable {w} {set : EquipSet}

theorem check_iff {hero : Option Hero} {e : Equip} {cfg : EquipRule} {placeholder : ℤ} :
    w.check hero e cfg placeholder = true ↔
      w.tables.heroLevelFits hero (w.kinds e.ptr).level cfg = true ∧ EquipTables.placeFits cfg placeholder = true := by
  unfold FormationWorld.check EquipTables.checkEquipPlaceholder
  rw [Bool.and_eq_true]

theorem placeFits_type {cfg : EquipRule} {placeholder : ℤ} (h : EquipTables.placeFits cfg placeholder = true)
    (hpos : placeholder % 256 ≠ 0) :
    placeholder % 256 ≤ 12 ∧ (isEquipType1 cfg.type = true ∨ isEquipType2 cfg.type = true) := by
  unfold EquipTables.placeFits equipIntoBattleMax at h
  simp only [hpos, if_false] at h
  split at h
  case isTrue => cases h
  case isFalse hle =>
    have hbit := of_decide_eq_true h
    have hn : (placeholder % 256 - 1).toNat < 12 := by omega
    refine ⟨by omega, ?_⟩
    unfold isEquipType1 isEquipType2
    simp only [decide_eq_true_eq]
    -- the twelve bits of the positions are those of the two kinds
    generalize (placeholder % 256 - 1).toNat = n at hbit hn
    interval_cases n
    all_goals omega

theorem maxEquipGroupCount_le {type : ℤ} (h : isEquipType1 type = true ∨ isEquipType2 type = true) :
    w.tables.maxEquipGroupCount type * 12 ≤ w.tables.battleCount := by
  unfold EquipTables.maxEquipGroupCount EquipTables.battleCount equipInBattleCount equipIntoBattleMax
  simp only
  generalize (w.tables.para2 12).getD 0 = a
  generalize (w.tables.para2 13).getD 0 = b
  have hmax : 12 + (if a > b then a else b) * 12 = 12 * (1 + max a b) := by
    split
    · rw [max_eq_left (by omega)]
      ring
    · rw [max_eq_right (by omega)]
      ring
  rw [hmax]
  by_cases h1 : isEquipType1 type = true
  · rw [if_pos h1]
    omega
  · rw [if_neg h1, if_pos (h.resolve_left h1)]
    omega

theorem slotOf_of_group {cfg : EquipRule} {placeholder : ℤ} (hfits : EquipTables.placeFits cfg placeholder = true)
    (hpos : placeholder % 256 ≠ 0) (hgroup : groupOf placeholder < w.tables.maxEquipGroupCount cfg.type) :
    slotOf w.tables.battleCount placeholder ≠ none := by
  obtain ⟨hle, htype⟩ := placeFits_type hfits hpos
  have hcount := maxEquipGroupCount_le (w := w) htype
  unfold groupOf at hgroup
  unfold slotOf equipIntoBattleMax
  simp only
  rw [if_neg (by omega), if_neg (by omega)]
  exact some_ne_none _

theorem getEquipFromHero_eq (heroUuid : ℕ) (pos : ℤ) :
    set.getEquipFromHero w.tables.battleCount heroUuid pos =
      (slotOf w.tables.battleCount pos).bind fun i => set.inSlot heroUuid i := by
  unfold EquipSet.getEquipFromHero EquipSet.inSlot
  cases slotOf w.tables.battleCount pos with
  | none => rfl
  | some i => rfl

theorem equipAt_some {p : ℕ} {e : Equip} (h : equipAt set p = some e) : e ∈ set.list ∧ e.ptr = p := lookup_some h

theorem equipAt_mem (hset : set.Indexed w.tables.battleCount) {e : Equip} (he : e ∈ set.list) :
    equipAt set e.ptr = some e := lookup_of_mem hset.unique he

theorem slotHolder_iff (hset : set.Indexed w.tables.battleCount) {heroUuid : ℕ} {pos : ℤ} {e : Equip} :
    w.slotHolder set heroUuid pos = some e ↔ e ∈ set.list ∧ e.heroUuid = heroUuid ∧
      ∃ i, slotOf w.tables.battleCount pos = some i ∧ slotOf w.tables.battleCount e.placeholder = some i := by
  unfold slotHolder
  rw [getEquipFromHero_eq]
  constructor
  · intro h
    obtain ⟨ptr, hptr, hlook⟩ := bind_eq_some_iff.mp h
    obtain ⟨i, hi, hin⟩ := bind_eq_some_iff.mp hptr
    obtain ⟨e', he', hp, hh, hi'⟩ := (hset.index heroUuid i ptr).mp hin
    rw [← hp, equipAt_mem hset he'] at hlook
    cases hlook
    exact ⟨he', hh, i, hi, hi'⟩
  · intro h
    obtain ⟨he, hh, i, hi, hi'⟩ := h
    have hin := (hset.index heroUuid i e.ptr).mpr ⟨e, he, rfl, hh, hi'⟩
    rw [hi, bind_some, hin, bind_some]
    exact equipAt_mem hset he

theorem equipGetByHero_eq (hset : set.Indexed w.tables.battleCount) (heroUuid : ℕ) (pos : ℤ) :
    w.equipGetByHero set heroUuid pos = .ok (w.slotHolder set heroUuid pos) := by
  unfold equipGetByHero slotHolder
  cases hg : set.getEquipFromHero w.tables.battleCount heroUuid pos with
  | none => rfl
  | some ptr =>
    rw [getEquipFromHero_eq] at hg
    obtain ⟨i, _, hin⟩ := bind_eq_some_iff.mp hg
    obtain ⟨e, he, hp, _, _⟩ := (hset.index heroUuid i ptr).mp hin
    have hlook : equipAt set ptr = some e := hp ▸ equipAt_mem hset he
    simp only [hlook, bind_some]

theorem holderCfg_iff {heroUuid : ℕ} {pos : ℤ} {old : Equip} {oldCfg : EquipRule} :
    w.holderCfg set heroUuid pos = some (old, oldCfg) ↔
      w.slotHolder set heroUuid pos = some old ∧ w.cfgOf old = some oldCfg := by
  unfold holderCfg
  constructor
  · intro h
    obtain ⟨old', hold, h⟩ := bind_eq_some_iff.mp h
    obtain ⟨oldCfg', hcfg, h⟩ := map_eq_some_iff.mp h
    cases h
    exact ⟨hold, hcfg⟩
  · intro h
    obtain ⟨hold, hcfg⟩ := h
    rw [hold, bind_some, hcfg, map_some]

theorem takeOld_eq (hset : set.Indexed w.tables.battleCount) (hok : w.FormationOk set) {heroUuid : ℕ} (hhero : heroUuid ≠ 0)
    (newPlace : ℤ) : w.takeOld set heroUuid newPlace = .ok (w.holderCfg set heroUuid newPlace, set) := by
  unfold takeOld holderCfg
  rw [equipGetByHero_eq hset, ok_bind]
  cases hh : w.slotHolder set heroUuid newPlace with
  | none => rfl
  | some old =>
    obtain ⟨hmem, huuid, _⟩ := (slotHolder_iff hset).mp hh
    obtain ⟨_, oldCfg, _, hcfg, _⟩ := hok.right old hmem (by rw [huuid]; exact hhero)
    simp only [hcfg, bind_some, map_some]
    rfl

end Places

/-! ## Moves -/

theorem placed_back {e : Equip} (h : e.heroUuid ≠ 0) : e.placed e.heroUuid e.placeholder = e := by
  unfold Modules.Equip.placed
  rw [if_neg h]

section Moves
variable {w} {set : EquipSet}

theorem changePos_ok (hset : set.Indexed w.tables.battleCount) {p bag : ℕ} {pos : ℤ} {e : Equip}
    (he : equipAt set p = some e)
    (hfree : bag ≠ 0 → ∀ q b, equipAt set q = some b → q ≠ p → b.heroUuid = bag → ∀ i,
      slotOf w.tables.battleCount pos = some i → slotOf w.tables.battleCount b.placeholder ≠ some i) :
    ∃ set', w.changePos set p bag pos = .ok set' ∧ set'.Indexed w.tables.battleCount ∧
      equipAt set' = update (equipAt set) p (some (e.placed bag pos)) := by
  obtain ⟨hmem, hptr⟩ := equipAt_some he
  obtain ⟨set', hs, hindexed, hl⟩ := @EquipSet.Indexed.changePos _ set hset e hmem bag pos (by
    intro hbag b hb hne
    exact hfree hbag b.ptr b (equipAt_mem hset hb) (by rw [← hptr]; exact hne))
  refine ⟨set', ?_, hindexed, ?_⟩
  · unfold changePos
    simp only [he]
    exact hs
  · funext q
    have hkey : (e.placed bag pos).ptr = p := hptr
    have hlook : lookup Equip.ptr p set.list = some e := he
    unfold equipAt
    rw [hl, hptr, lookup_adjust (fun _ _ => hkey), hlook, map_some, update_apply]

def PlacesOk (w : FormationWorld) (f : ℕ → Option Equip) : Prop :=
  (∀ p e, f p = some e → e.heroUuid ≠ 0 → w.WornRight e) ∧
  ∀ p e q e', f p = some e → f q = some e' → e.heroUuid ≠ 0 → e.heroUuid = e'.heroUuid →
    e.placeholder = e'.placeholder → p = q

theorem formationOk_iff (hset : set.Indexed w.tables.battleCount) :
    w.FormationOk set ↔ w.PlacesOk (equipAt set) := by
  constructor
  · intro h
    refine ⟨fun p e he => h.right e (equipAt_some he).1, ?_⟩
    intro p e q e' he he' hworn hh hp
    obtain ⟨hmem, hptr⟩ := equipAt_some he
    obtain ⟨hmem', hptr'⟩ := equipAt_some he'
    rw [← hptr, ← hptr']
    exact h.apart e hmem e' hmem' hworn hh hp
  · intro h
    refine ⟨fun e he => h.1 e.ptr e (equipAt_mem hset he), ?_⟩
    intro e he e' he'
    exact h.2 e.ptr e e'.ptr e' (equipAt_mem hset he) (equipAt_mem hset he')

theorem PlacesOk.put {f : ℕ → Option Equip} (h : w.PlacesOk f) {p : ℕ} {e : Equip} (hright : e.heroUuid ≠ 0 → w.WornRight e)
    (hfree : e.heroUuid ≠ 0 → ∀ q b, f q = some b → q ≠ p → b.heroUuid = e.heroUuid → b.placeholder ≠ e.placeholder) :
    w.PlacesOk (update f p (some e)) := by
  have hcases : ∀ q b, update f p (some e) q = some b → q = p ∧ b = e ∨ q ≠ p ∧ f q = some b := by
    intro q b hb
    by_cases hq : q = p
    · rw [hq, update_self] at hb
      exact .inl ⟨hq, (some.inj hb).symm⟩
    · rw [update_of_ne hq] at hb
      exact .inr ⟨hq, hb⟩
  constructor
  · intro q b hb hworn
    obtain ⟨_, rfl⟩ | ⟨_, hb⟩ := hcases q b hb
    · exact hright hworn
    · exact h.1 q b hb hworn
  · intro q b q' b' hb hb' hworn hh hp
    obtain ⟨hq, rfl⟩ | ⟨hq, hb₁⟩ := hcases q b hb
    · obtain ⟨hq', _⟩ | ⟨hq', hb'⟩ := hcases q' b' hb'
      · rw [hq, hq']
      · exact absurd hp.symm (hfree hworn q' b' hb' hq' hh.symm)
    · obtain ⟨_, rfl⟩ | ⟨_, hb'⟩ := hcases q' b' hb'
      · exact absurd hp (hfree (hh ▸ hworn) q b hb₁ hq hh)
      · exact h.2 q b q' b' hb₁ hb' hworn hh hp

theorem wornRight_slot {e : Equip} (h : w.WornRight e) (hpos : e.placeholder % 256 ≠ 0) :
    slotOf w.tables.battleCount e.placeholder ≠ none := by
  obtain ⟨hero, cfg, _, _, hfits, hgroup⟩ := h
  exact slotOf_of_group (check_iff.mp hfits).2 hpos hgroup

theorem FormationOk.bag (hset : set.Indexed w.tables.battleCount) (hok : w.FormationOk set) {p : ℕ} {set' : EquipSet}
    (h : w.changePos set p 0 0 = .ok set') : w.FormationOk set' := by
  cases he : equipAt set p with
  | none =>
    unfold changePos at h
    rw [he] at h
    cases h
  | some e =>
    obtain ⟨set₁, hs, hset₁, hlook⟩ := @changePos_ok w set hset p 0 0 e he (fun hne => absurd rfl hne)
    rw [hs] at h
    obtain rfl : set' = set₁ := (Except.ok.inj h).symm
    apply (formationOk_iff hset₁).mpr
    rw [hlook]
    exact ((formationOk_iff hset).mp hok).put (fun hne => absurd rfl hne) fun hne => absurd rfl hne

section Exchange
variable {equip : Equip} {heroUuid : ℕ} {newPlace : ℤ} (hset : set.Indexed w.tables.battleCount)
  (hequip : equipAt set equip.ptr = some equip) (hhero : heroUuid ≠ 0)

include hset hequip

theorem exchange_free (hfree : w.slotHolder set heroUuid newPlace = none) :
    ∃ set', w.exchange set equip heroUuid newPlace none = .ok set' ∧ set'.Indexed w.tables.battleCount ∧
      equipAt set' = update (equipAt set) equip.ptr (some (equip.placed heroUuid newPlace)) := by
  apply changePos_ok hset hequip
  intro _ q b hb _ hh i hi hi'
  have hholds := (slotHolder_iff hset).mpr ⟨(equipAt_some hb).1, hh, i, hi, hi'⟩
  rw [hfree] at hholds
  cases hholds

include hhero

theorem exchange_swap {old : Equip} {oldCfg : EquipRule} (hold : w.slotHolder set heroUuid newPlace = some old) :
    ∃ set', w.exchange set equip heroUuid newPlace (some (old, oldCfg)) = .ok set' ∧ set'.Indexed w.tables.battleCount ∧
      equipAt set' = update (update (update (equipAt set) old.ptr (some (old.placed 0 0)))
        equip.ptr (some (equip.placed heroUuid newPlace)))
        old.ptr (some (old.placed (w.moveTo equip old oldCfg).1 (w.moveTo equip old oldCfg).2)) := by
  obtain ⟨holdmem, holdhero, i₀, hi₀, holdslot⟩ := (slotHolder_iff hset).mp hold
  have holdlook := equipAt_mem hset holdmem
  have hsame : equip.ptr = old.ptr → equip = old := by
    intro hp
    rw [hp, holdlook] at hequip
    exact (some.inj hequip).symm
  -- the slot is emptied
  obtain ⟨set₁, hs₁, hset₁, hat₁⟩ := @changePos_ok w set hset old.ptr 0 0 old holdlook (fun hne => absurd rfl hne)
  -- the equip is put into it
  obtain ⟨e₁, he₁, hplaced₁⟩ : ∃ e₁, equipAt set₁ equip.ptr = some e₁ ∧
      e₁.placed heroUuid newPlace = equip.placed heroUuid newPlace := by
    rw [hat₁]
    by_cases hp : equip.ptr = old.ptr
    · rw [hp, update_self]
      exact ⟨_, rfl, by rw [hsame hp]; rfl⟩
    · rw [update_of_ne hp]
      exact ⟨equip, hequip, rfl⟩
  obtain ⟨set₂, hs₂, hset₂, hat₂⟩ := @changePos_ok w set₁ hset₁ equip.ptr heroUuid newPlace e₁ he₁ (by
    intro _ q b hb hne hh i hi hi'
    rw [hat₁] at hb
    by_cases hq : q = old.ptr
    · rw [hq, update_self] at hb
      cases hb
      exact hhero hh.symm
    · rw [update_of_ne hq] at hb
      have hholds := (slotHolder_iff hset).mpr ⟨(equipAt_some hb).1, hh, i, hi, hi'⟩
      rw [hold] at hholds
      cases hholds
      exact hq (equipAt_some hb).2.symm)
  rw [hplaced₁] at hat₂
  -- the other one is put where it came from
  obtain ⟨e₂, he₂, hplaced₂⟩ : ∃ e₂, equipAt set₂ old.ptr = some e₂ ∧
      ∀ bag pos, e₂.placed bag pos = old.placed bag pos := by
    rw [hat₂]
    by_cases hp : old.ptr = equip.ptr
    · rw [hp, update_self]
      exact ⟨_, rfl, fun bag pos => by rw [hsame hp.symm]; rfl⟩
    · rw [update_of_ne hp, hat₁, update_self]
      exact ⟨_, rfl, fun _ _ => rfl⟩
  obtain ⟨set₃, hs₃, hset₃, hat₃⟩ := @changePos_ok w set₂ hset₂ old.ptr (w.moveTo equip old oldCfg).1
      (w.moveTo equip old oldCfg).2 e₂ he₂ (by
    intro hbag q b hb hne hh i hi hi'
    have hto : w.moveTo equip old oldCfg = (equip.heroUuid, equip.placeholder) := by
      unfold moveTo at hbag ⊢
      split
      · rfl
      · next hc => simp [hc] at hbag
    rw [hto] at hh hi
    rw [hat₂] at hb
    by_cases hq : q = equip.ptr
    · -- the equip would have been in the slot before
      rw [hq, update_self] at hb
      cases hb
      have hplace : (equip.placed heroUuid newPlace).placeholder = newPlace := if_neg hhero
      rw [hplace] at hi'
      have hmine : equip.heroUuid = heroUuid := hh.symm
      have hself := (slotHolder_iff hset).mpr ⟨(equipAt_some hequip).1, hmine, i, hi', hi⟩
      rw [hold] at hself
      cases hself
      exact hne hq
    · rw [update_of_ne hq, hat₁, update_of_ne hne] at hb
      have halone := hset.alone (equipAt_some hb).1 (equipAt_some hequip).1 hh hi' hi
      exact hq ((equipAt_some hb).2.symm.trans halone))
  refine ⟨set₃, ?_, hset₃, ?_⟩
  · unfold exchange
    simp only [hs₁, hs₂, ok_bind]
    exact hs₃
  · rw [hat₃, hplaced₂, hat₂, hat₁]

end Exchange

end Moves

/-! ## Requests -/

section Requests
variable {w} {s : FormationState} {uuid : ℕ} {heroid newPlace : ℤ} {heroUuid : ℕ} {equip : Equip} {cfg : EquipRule}
  {hero : Hero} (hset : s.set.Indexed w.tables.battleCount) (hok : w.FormationOk s.set)
  (h : w.WearRequest s uuid heroid newPlace heroUuid equip cfg hero)

include h

theorem WearRequest.hero_pos : hero.uuid ≠ 0 := by
  have hpos := w.player.uuid_pos hero (HeroSet.heroGet_mem h.found)
  omega

theorem WearRequest.right_iff :
    w.WornRight (equip.placed hero.uuid newPlace) ↔ groupOf newPlace < w.tables.maxEquipGroupCount cfg.type := by
  have hplace : (equip.placed hero.uuid newPlace).placeholder = newPlace := if_neg h.hero_pos
  unfold WornRight
  rw [hplace]
  constructor
  · intro hr
    obtain ⟨_, cfg', _, hcfg', _, hgroup⟩ := hr
    have hcfg : w.cfgOf equip = some cfg' := hcfg'
    rw [h.configured] at hcfg
    cases hcfg
    exact hgroup
  · intro hgroup
    exact ⟨hero, cfg, HeroSet.heroGet_uuid h.found 0, h.configured, h.fits, hgroup⟩

include hset

theorem WearRequest.heldAt : equipAt s.set equip.ptr = some equip :=
  equipAt_mem hset (List.mem_of_find?_eq_some h.held)

include hok

/-- The place that the equip leaves is within the rules for the other one exactly when the level of the hero and the group are. -/
theorem WearRequest.displaced_iff {old : Equip} {oldCfg : EquipRule} (hcfg : w.cfgOf old = some oldCfg)
    (hworn : equip.heroUuid ≠ 0) (hcheck : w.check (w.curHero equip) old oldCfg equip.placeholder = true) :
    w.WornRight (old.placed equip.heroUuid equip.placeholder) ↔
      (∀ wearer, w.player.heroGet 0 equip.heroUuid = some wearer →
        w.tables.heroLevelFits (some wearer) (w.kinds old.ptr).level oldCfg = true) ∧
      groupOf equip.placeholder < w.tables.maxEquipGroupCount oldCfg.type := by
  have hplace : (old.placed equip.heroUuid equip.placeholder).placeholder = equip.placeholder := if_neg hworn
  obtain ⟨_, hfits⟩ := check_iff.mp hcheck
  obtain ⟨wearer, _, hwearer, _⟩ := hok.right equip (equipAt_some (h.heldAt hset)).1 hworn
  unfold WornRight
  rw [hplace]
  constructor
  · intro hr
    obtain ⟨wearer', cfg', hwearer', hcfg', hcheck', hgroup⟩ := hr
    have hsame : w.cfgOf old = some cfg' := hcfg'
    rw [hcfg] at hsame
    cases hsame
    refine ⟨?_, hgroup⟩
    intro wearer₁ hw₁
    have hw' : w.player.heroGet 0 equip.heroUuid = some wearer' := hwearer'
    rw [hw₁] at hw'
    cases hw'
    exact (check_iff.mp hcheck').1
  · intro hr
    exact ⟨wearer, oldCfg, hwearer, hcfg, check_iff.mpr ⟨hr.1 wearer hwearer, hfits⟩, hr.2⟩

theorem WearRequest.alone {p : ℕ} {b : Equip} (hb : equipAt s.set p = some b) (hh : b.heroUuid = hero.uuid)
    (hp : b.placeholder = newPlace) : w.slotHolder s.set hero.uuid newPlace = some b := by
  have hmem := (equipAt_some hb).1
  have hright := hok.right b hmem (by rw [hh]; exact h.hero_pos)
  have hslot := wornRight_slot hright (by rw [hp]; exact h.place)
  obtain ⟨i, hi⟩ := ne_none_iff_exists'.mp hslot
  exact (slotHolder_iff hset).mpr ⟨hmem, hh, i, hp ▸ hi, hi⟩

theorem WearRequest.free_iff (hfree : w.slotHolder s.set hero.uuid newPlace = none) :
    w.PlacesOk (update (equipAt s.set) equip.ptr (some (equip.placed hero.uuid newPlace))) ↔
      groupOf newPlace < w.tables.maxEquipGroupCount cfg.type := by
  rw [← h.right_iff]
  constructor
  · intro hp
    exact hp.1 equip.ptr _ (update_self _ _ _) h.hero_pos
  · intro hright
    apply ((formationOk_iff hset).mp hok).put (fun _ => hright)
    intro _ q b hb _ hh hp
    have hplace : (equip.placed hero.uuid newPlace).placeholder = newPlace := if_neg h.hero_pos
    have hholds := h.alone hset hok hb hh (hp.trans hplace)
    rw [hfree] at hholds
    cases hholds

theorem WearRequest.swap_iff {old : Equip} {oldCfg : EquipRule} (hold : w.slotHolder s.set hero.uuid newPlace = some old)
    (hcfg : w.cfgOf old = some oldCfg) :
    w.PlacesOk (update (update (update (equipAt s.set) old.ptr
        (some (old.placed 0 0))) equip.ptr (some (equip.placed hero.uuid newPlace)))
        old.ptr (some (old.placed (w.moveTo equip old oldCfg).1 (w.moveTo equip old oldCfg).2))) ↔
      groupOf newPlace < w.tables.maxEquipGroupCount cfg.type ∧
      (old.ptr ≠ equip.ptr → equip.heroUuid ≠ 0 → w.check (w.curHero equip) old oldCfg equip.placeholder = true →
        (∀ wearer, w.player.heroGet 0 equip.heroUuid = some wearer →
          w.tables.heroLevelFits (some wearer) (w.kinds old.ptr).level oldCfg = true) ∧
        groupOf equip.placeholder < w.tables.maxEquipGroupCount oldCfg.type) := by
  have hplace : (equip.placed hero.uuid newPlace).placeholder = newPlace := if_neg h.hero_pos
  have hat := h.heldAt hset
  obtain ⟨holdmem, holdhero, i, hi, holdslot⟩ := (slotHolder_iff hset).mp hold
  have holdat := equipAt_mem hset holdmem
  have hsame : old.ptr = equip.ptr → old = equip := by
    intro hp
    rw [hp, hat] at holdat
    exact (some.inj holdat).symm
  constructor
  · intro hp
    constructor
    · by_cases hself : old.ptr = equip.ptr
      · -- a place of the same slot has the same group
        have heq := hsame hself
        subst heq
        obtain ⟨_, cfg', _, hcfg', _, hgroup⟩ := hok.right old holdmem (by rw [holdhero]; exact h.hero_pos)
        rw [h.configured] at hcfg'
        cases hcfg'
        have h1 := slotOf_some hi
        have h2 := slotOf_some holdslot
        unfold groupOf at hgroup ⊢
        omega
      · apply h.right_iff.mp
        apply hp.1 equip.ptr _ _ h.hero_pos
        rw [update_of_ne (Ne.symm hself), update_self]
    · intro hne hworn hcheck
      apply (h.displaced_iff hset hok hcfg hworn hcheck).mp
      have hto : w.moveTo equip old oldCfg = (equip.heroUuid, equip.placeholder) := if_pos hcheck
      rw [hto] at hp
      exact hp.1 old.ptr _ (update_self _ _ _) hworn
  · intro hc
    obtain ⟨hgroup, hdisplaced⟩ := hc
    have hf := (formationOk_iff hset).mp hok
    have hbag : w.PlacesOk (update (equipAt s.set) old.ptr (some (old.placed 0 0))) :=
      hf.put (fun hne => absurd rfl hne) fun hne => absurd rfl hne
    have hput := @PlacesOk.put w _ hbag equip.ptr (equip.placed hero.uuid newPlace) (fun _ => h.right_iff.mpr hgroup) (by
      intro _ q b hb _ hh hp
      by_cases hq : q = old.ptr
      · rw [hq, update_self] at hb
        cases hb
        exact h.hero_pos hh.symm
      · rw [update_of_ne hq] at hb
        have hholds := h.alone hset hok hb hh (hp.trans hplace)
        rw [hold] at hholds
        cases hholds
        exact hq (equipAt_some hb).2.symm)
    -- what is displaced, and not into the bag, goes where the equip comes from
    have hto : (w.moveTo equip old oldCfg).1 ≠ 0 → w.moveTo equip old oldCfg = (equip.heroUuid, equip.placeholder) ∧
        equip.heroUuid ≠ 0 ∧ w.check (w.curHero equip) old oldCfg equip.placeholder = true := by
      intro hne
      unfold moveTo at hne ⊢
      by_cases hcheck : w.check (w.curHero equip) old oldCfg equip.placeholder = true
      · rw [if_pos hcheck] at hne ⊢
        exact ⟨rfl, hne, hcheck⟩
      · rw [if_neg hcheck] at hne
        exact absurd rfl hne
    apply hput.put
    · intro hne
      obtain ⟨hplaced, hworn, hcheck⟩ := hto hne
      rw [hplaced]
      by_cases hself : old.ptr = equip.ptr
      · rw [hsame hself, placed_back hworn]
        exact hok.right equip (equipAt_some hat).1 hworn
      · exact (h.displaced_iff hset hok hcfg hworn hcheck).mpr (hdisplaced hself hworn hcheck)
    · intro hne q b hb hq hh hp
      obtain ⟨hplaced, hworn, _⟩ := hto hne
      rw [hplaced] at hh hp
      have hback : (old.placed equip.heroUuid equip.placeholder).placeholder = equip.placeholder := if_neg hworn
      rw [hback] at hp
      by_cases hqe : q = equip.ptr
      · rw [hqe, update_self] at hb
        cases hb
        exact h.moves ⟨hh.symm, hp.symm.trans hplace⟩
      · rw [update_of_ne hqe, update_of_ne hq] at hb
        exact hqe (hf.2 equip.ptr equip q b hat hb hworn hh.symm hp.symm).symm

theorem WearRequest.wears : ∃ s', w.updateFightFormation s uuid heroid newPlace heroUuid = .ok (retSuccess, s') ∧
    s'.set.Indexed w.tables.battleCount ∧
    (w.FormationOk s'.set ↔ groupOf newPlace < w.tables.maxEquipGroupCount cfg.type ∧
      ∀ old oldCfg, w.holderCfg s.set hero.uuid newPlace = some (old, oldCfg) → old.ptr ≠ equip.ptr → equip.heroUuid ≠ 0 →
        w.check (w.curHero equip) old oldCfg equip.placeholder = true →
        (∀ wearer, w.player.heroGet 0 equip.heroUuid = some wearer →
          w.tables.heroLevelFits (some wearer) (w.kinds old.ptr).level oldCfg = true) ∧
        groupOf equip.placeholder < w.tables.maxEquipGroupCount oldCfg.type) := by
  have hat := h.heldAt hset
  have hpos := h.hero_pos
  have hrun : ∀ set', w.exchange s.set equip hero.uuid newPlace (w.holderCfg s.set hero.uuid newPlace) = .ok set' →
      w.updateFightFormation s uuid heroid newPlace heroUuid = .ok (retSuccess, ⟨set',
        (w.tables.formationCost w.player.pid s.inventory equip.heroUuid hero.uuid cfg
          ((w.holderCfg s.set hero.uuid newPlace).map Prod.snd)).2⟩) := by
    intro set' hex
    unfold updateFightFormation
    simp only [h.held, h.found, h.configured, if_pos h.asked]
    rw [if_neg (by rw [h.opened]; decide), if_neg (by simp), if_neg (by simpa using h.moves), if_neg h.place]
    unfold wear
    rw [if_neg (by rw [h.fits]; decide), takeOld_eq hset hok hpos, ok_bind]
    simp only [h.paid, hex, ok_bind]
    rfl
  cases hh : w.holderCfg s.set hero.uuid newPlace with
  | none =>
    have hfree : w.slotHolder s.set hero.uuid newPlace = none := by
      cases hold : w.slotHolder s.set hero.uuid newPlace with
      | none => rfl
      | some old =>
        obtain ⟨hmem, huuid, _⟩ := (slotHolder_iff hset).mp hold
        obtain ⟨_, oldCfg, _, hcfg, _⟩ := hok.right old hmem (by rw [huuid]; exact hpos)
        rw [holderCfg_iff.mpr ⟨hold, hcfg⟩] at hh
        cases hh
    obtain ⟨set', hex, hset', hplaces⟩ := exchange_free hset hat hfree
    refine ⟨_, hrun set' (by rw [hh]; exact hex), hset', ?_⟩
    rw [formationOk_iff hset', hplaces, h.free_iff hset hok hfree]
    simp
  | some one =>
    obtain ⟨old, oldCfg⟩ := one
    obtain ⟨hold, hcfg⟩ := holderCfg_iff.mp hh
    obtain ⟨set', hex, hset', hplaces⟩ := @exchange_swap w s.set equip hero.uuid newPlace hset hat hpos old oldCfg hold
    refine ⟨_, hrun set' (by rw [hh]; exact hex), hset', ?_⟩
    rw [formationOk_iff hset', hplaces, h.swap_iff hset hok hold hcfg]
    constructor
    · intro hc
      refine ⟨hc.1, ?_⟩
      intro old' oldCfg' heq
      cases heq
      exact hc.2
    · intro hc
      exact ⟨hc.1, hc.2 old oldCfg rfl⟩

omit h in
theorem updateFightFormation_else
    (hno : ∀ equip cfg hero, ¬ w.WearRequest s uuid heroid newPlace heroUuid equip cfg hero) {s' : FormationState}
    (hr : w.updateFightFormation s uuid heroid newPlace heroUuid = .ok (retSuccess, s')) :
    s'.set = s.set ∨ ∃ p, w.changePos s.set p 0 0 = .ok s'.set := by
  have hbag : ∀ {equip cfg}, w.toBag s equip cfg = .ok (retSuccess, s') →
      s'.set = s.set ∨ ∃ p, w.changePos s.set p 0 0 = .ok s'.set := by
    intro equip cfg hb
    unfold toBag at hb
    split at hb
    · simp only at hb
      split at hb
      · cases hb
      · obtain ⟨set', hset', hb⟩ := bind_ok_iff.mp hb
        cases hb
        exact .inr ⟨equip.ptr, hset'⟩
    · cases hb
      exact .inl rfl
  unfold updateFightFormation at hr
  by_cases hopen : formationOpen w newPlace = false
  · rw [if_pos hopen] at hr
    cases hr
  rw [if_neg hopen] at hr
  cases hheld : w.equipGet s.set uuid with
  | none =>
    rw [hheld] at hr
    cases hr
  | some equip =>
    simp only [hheld] at hr
    by_cases hasked : heroid ≠ 0 ∨ heroUuid ≠ 0
    · simp only [if_pos hasked] at hr
      cases hfound : w.player.heroGet (toUnsigned heroid) heroUuid with
      | none =>
        rw [hfound, if_pos ⟨hasked, rfl⟩] at hr
        cases hr
      | some hero =>
        simp only [hfound, reduceCtorEq, and_false, if_false, map_some, getD_some] at hr
        by_cases hmoves : equip.heroUuid = hero.uuid ∧ equip.placeholder = newPlace
        · rw [if_pos hmoves] at hr
          cases hr
          exact .inl rfl
        rw [if_neg hmoves] at hr
        cases hconf : w.cfgOf equip with
        | none =>
          rw [hconf] at hr
          cases hr
        | some cfg =>
          simp only [hconf] at hr
          by_cases hplace : newPlace % 256 = 0
          · rw [if_pos hplace] at hr
            exact hbag hr
          rw [if_neg hplace] at hr
          unfold wear at hr
          by_cases hfits : w.check (some hero) equip cfg newPlace = false
          · rw [if_pos hfits] at hr
            cases hr
          have hpos := w.player.uuid_pos hero (HeroSet.heroGet_mem hfound)
          rw [if_neg hfits, takeOld_eq hset hok (by omega), ok_bind] at hr
          by_cases hpaid : (w.tables.formationCost w.player.pid s.inventory equip.heroUuid hero.uuid cfg
              ((w.holderCfg s.set hero.uuid newPlace).map Prod.snd)).1 ≠ 0
          · simp only [if_pos hpaid] at hr
            cases hr
          · exact absurd
              { opened := by simpa using hopen
                held := hheld
                asked := hasked
                found := hfound
                moves := hmoves
                configured := hconf
                place := hplace
                fits := by simpa using hfits
                paid := not_not.mp hpaid }
              (hno equip cfg hero)
    · simp only [if_neg hasked, map_none, getD_none] at hr
      rw [if_neg fun hc => hasked hc.1] at hr
      by_cases hmoves : equip.heroUuid = 0 ∧ equip.placeholder = newPlace
      · rw [if_pos hmoves] at hr
        cases hr
        exact .inl rfl
      rw [if_neg hmoves] at hr
      cases hconf : w.cfgOf equip with
      | none =>
        rw [hconf] at hr
        cases hr
      | some cfg =>
        simp only [hconf] at hr
        exact hbag hr

end Requests

/-- After a request that succeeds the rules hold exactly when it is careful, in any state in which they have held. -/
theorem formationKept_iff (w : FormationWorld) {s : FormationState} (hset : s.set.Indexed w.tables.battleCount)
    (hok : w.FormationOk s.set) (uuid : ℕ) (heroid newPlace : ℤ) (heroUuid : ℕ) :
    w.FormationKept s uuid heroid newPlace heroUuid ↔ w.FormationCareful s uuid heroid newPlace heroUuid := by
  constructor
  · intro hkept equip cfg hero h
    obtain ⟨s', hr, _, hiff⟩ := h.wears hset hok
    exact hiff.mp (hkept s' hr)
  · intro hcareful s' hr
    by_cases hwear : ∃ equip cfg hero, w.WearRequest s uuid heroid newPlace heroUuid equip cfg hero
    · obtain ⟨equip, cfg, hero, h⟩ := hwear
      obtain ⟨s₁, hr₁, _, hiff⟩ := h.wears hset hok
      rw [hr] at hr₁
      cases hr₁
      exact hiff.mpr (hcareful equip cfg hero h)
    · have hno : ∀ equip cfg hero, ¬ w.WearRequest s uuid heroid newPlace heroUuid equip cfg hero :=
        fun equip cfg hero h => hwear ⟨equip, cfg, hero, h⟩
      cases updateFightFormation_else hset hok hno hr with
      | inl hsame =>
        rw [hsame]
        exact hok
      | inr hbag =>
        obtain ⟨p, hp⟩ := hbag
        exact hok.bag hset hp

end FormationWorld

/-! ### Two heroes, of levels 10 and 1, who change their equips -/

def swapWorld : FormationWorld where
  tables :=
    { equip := fun gid => some ⟨1, 0, 0, 9, if gid = 2 then 5 else 1⟩
      upgrade := fun _ => none
      common := fun _ => none
      openLev := fun _ => none
      consume := fun _ => none
      packages := fun _ => none }
  player :=
    { heroes := [⟨1001, 21, 10, 0, 0⟩, ⟨1002, 22, 1, 0, 0⟩]
      uuids := by unfold DistinctKeys; decide
      uuid_pos := by simp
      m := fun gid => if gid = 21 then some ⟨1001, 21, 10, 0, 0⟩ else none
      m_mem := by
        intro gid hero h
        split at h
        · cases h
          exact mem_cons_self
        · cases h
      pid := 100000
      level := 10
      questCount := fun _ => none
      totalStar := 0 }
  kinds := fun ptr => if ptr = 2 then ⟨12, 2, 1⟩ else ⟨11, 1, 1⟩

def swapRows : List Equip := [⟨1, 100000, 1002, 1⟩, ⟨2, 100000, 1001, 1⟩]

def swapState : FormationState :=
  ⟨match EquipSet.empty.equipLoad 12 swapRows with
    | .ok set => set
    | .error _ => EquipSet.empty,
    ⟨fun _ => none, fun _ _ => none, fun _ => 0⟩⟩

theorem swapState_indexed : swapState.set.Indexed swapWorld.tables.battleCount := by
  have hload : ∀ r ∈ swapRows, Loads 12 EquipSet.empty.list r := by
    intro r hr
    refine ⟨fun _ hb => absurd hb not_mem_nil, .inr ?_, fun _ hb => absurd hb not_mem_nil⟩
    simp only [swapRows, mem_cons, not_mem_nil, or_false] at hr
    obtain rfl | rfl := hr
    · exact ⟨by decide, .inr (by decide)⟩
    · exact ⟨by decide, .inr (by decide)⟩
  have hapart : swapRows.Pairwise fun r r' => r.heroUuid = r'.heroUuid → r.placeholder = r'.placeholder → r.placeholder = 0 := by
    simp [swapRows]
  obtain ⟨set', hset, hok, _⟩ := equipLoad_ok swapRows EquipSet.empty empty_ok (by unfold DistinctKeys; decide) hapart hload
  have hstate : swapState.set = set' := by
    unfold swapState
    rw [hset]
  rw [hstate]
  exact hok.indexed

theorem swapState_ok : swapWorld.FormationOk swapState.set where
  right := by
    intro e he _
    have hmem : e ∈ swapRows := he
    simp only [swapRows, mem_cons, not_mem_nil, or_false] at hmem
    obtain rfl | rfl := hmem
    · exact ⟨⟨1002, 22, 1, 0, 0⟩, ⟨1, 0, 0, 9, 1⟩, rfl, rfl, by decide, by decide⟩
    · exact ⟨⟨1001, 21, 10, 0, 0⟩, ⟨1, 0, 0, 9, 5⟩, rfl, rfl, by decide, by decide⟩
  apart := by
    intro e he e' he' _ hh _
    have hmem : e ∈ swapRows := he
    have hmem' : e' ∈ swapRows := he'
    simp only [swapRows, mem_cons, not_mem_nil, or_false] at hmem hmem'
    obtain rfl | rfl := hmem
    · obtain rfl | rfl := hmem'
      · rfl
      · simp at hh
    · obtain rfl | rfl := hmem'
      · simp at hh
      · rfl

theorem formationKept_bag : swapWorld.FormationKept swapState 11 0 0 0 :=
  (FormationWorld.formationKept_iff swapWorld swapState_indexed swapState_ok 11 0 0 0).mpr
    fun _ _ _ h => absurd rfl h.place

/-- An equip that asks for level 5 comes to the hero of level 1. -/
theorem formationKept_displaced : swapState.set.Indexed swapWorld.tables.battleCount ∧
    swapWorld.FormationOk swapState.set ∧ ¬ swapWorld.FormationKept swapState 11 0 1 1001 := by
  refine ⟨swapState_indexed, swapState_ok, ?_⟩
  intro h
  obtain ⟨s', hr, hlist⟩ : ∃ s', swapWorld.updateFightFormation swapState 11 0 1 1001 = .ok (retSuccess, s') ∧
      s'.set.list = [⟨1, 100000, 1001, 1⟩, ⟨2, 100000, 1002, 1⟩] := ⟨_, rfl, rfl⟩
  have hok := h s' hr
  have hmem : (⟨2, 100000, 1002, 1⟩ : Equip) ∈ s'.set.list := by
    rw [hlist]
    simp
  obtain ⟨hero, cfg, hhero, hcfg, hcheck, _⟩ := hok.right _ hmem (by decide)
  cases hhero
  cases hcfg
  revert hcheck
  decide

end CServer.Logic
