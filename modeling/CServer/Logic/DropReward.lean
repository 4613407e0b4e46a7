import CServer.Lib.Slots
import CServer.Lib.Weighted
import CServer.Logic.Consume
import CServer.Logic.RewardGrant
import Mathlib.Data.BitVec

/-! # `world/logic/aL.c`: a list of drops

`aL_send_drop_reward` draws the rows of one drop after another into one reward, which is committed after the loop. A drop
that is configured with items is sent by `aL_send_reward_by_drop_config`, with rewards of its own; then the function
returns, without the drops that follow and without the reward that it has opened.

The heroes are those the player has at the beginning; `commit` is what committed contents do to the items. What is computed
in floating point is a parameter, `scale`, and so is the level at an amount of exp. Exp is refused a hero whose level would
pass that of the leading role. The report of what was granted is left out, and no events are raised.
-/
namespace CServer.Logic.Drops
open CServer.Lib CServer.Modules Function

/-! ## Configuration and player -/

structure DropConfig where
  firstDrop : Bool
  group : ℤ
  dropRate : ℤ
  type : ℤ
  id : ℤ
  minValue : ℤ
  maxValue : ℤ
  minIncr : ℤ
  maxIncr : ℤ
  actTime : ℤ
  endTime : ℤ
  actDropRate : ℤ
  actValueRate : ℤ
  levelLimitMin : ℤ
  levelLimitMax : ℤ

structure DropWithItemConfig where
  priority : ℤ
  weight : ℤ
  itemId : ℤ
  itemCount : ℤ
  drop : List DropConfig

/-- `get_drop_config`, the groups of `get_drop_with_item_config`, and a value at a rate of activity. -/
structure DropTables where
  drop : ℤ → Option (List DropConfig)
  withItem : ℤ → Option (ℕ → List DropWithItemConfig)
  scale : Option ℤ → ℤ → ℤ

structure DropInfo where
  id : ℤ
  level : ℤ

/-- The call, but for the drops: `level` is `player_get_level`, and `rand` the values of `rand()` one after another. The
hero of the leading role is `leader`; `levelOf` is `transfrom_exp_to_level` by gid, and `factor` that of the common config. -/
structure DropCall where
  tables : DropTables
  rand : ℕ → ℕ
  now : ℤ
  pid : ℕ
  level : ℤ
  heros : List ℕ
  heroGid : ℕ → Option ℤ
  heroExp : ℕ → BitVec 32
  leader : Option ℕ
  levelOf : ℤ → BitVec 32 → ℤ
  factor : ℤ
  firstTime : Bool
  sendReward : Bool
  commit : Inventory → List Content → Inventory

/-! ## The rows of a drop -/

variable (call : DropCall)

def randRange (pos : ℕ) (a b : ℤ) : Except Fault (ℤ × ℕ) :=
  if a = b then .ok (a, pos)
  else if b - a + 1 = 0 then .error .divisionByZero
  else .ok (a + (call.rand pos : ℤ).tmod (b - a + 1), pos + 1)

def DropConfig.activity (row : DropConfig) (now : ℤ) : Option ℤ :=
  if now ≥ row.actTime ∧ now ≤ row.endTime then some row.actValueRate else none

def DropConfig.min (t : DropTables) (row : DropConfig) (now level : ℤ) : ℤ :=
  t.scale (row.activity now) (row.minValue + row.minIncr * level)

def DropConfig.max (t : DropTables) (row : DropConfig) (now level : ℤ) : ℤ :=
  t.scale (row.activity now) (row.maxValue + row.maxIncr * level)

def DropConfig.rate (row : DropConfig) (now : ℤ) : ℤ :=
  row.dropRate + if (row.activity now).isSome then row.actDropRate else 0

/-- `reward_flag`, `group_value` and what has been drawn. -/
structure DrawState where
  flags : ℤ → Bool
  values : ℤ → ℤ
  pos : ℕ
  draws : List Draw

/-- One row; `limit` is the level of the player where it is asked for. A group is one of 32. -/
def drawRow (limit : Option ℤ) (level : ℤ) (s : DrawState) (row : DropConfig) : Except Fault DrawState :=
  if row.firstDrop ∧ call.firstTime = false then .ok s
  else if limit.any fun p => p < row.levelLimitMin ∨ p > row.levelLimitMax then .ok s
  else if row.group < 0 ∨ row.group ≥ 32 ∨ s.flags row.group then .ok s
  else
    let rate := row.rate call.now
    let (value, pos) := if s.values row.group = 0 then ((call.rand s.pos % 10000 + 1 : ℤ), s.pos + 1) else (s.values row.group, s.pos)
    if rate = 0 then .ok { s with values := update s.values row.group value, pos }
    else if rate < 10000 ∧ value > rate then
      .ok { s with values := update s.values row.group (value - rate), pos }
    else do
      let (v, pos) ← randRange call pos (row.min call.tables call.now level) (row.max call.tables call.now level)
      return ⟨update s.flags row.group true, update s.values row.group value, pos,
        s.draws ++ [⟨row.type, row.id, v⟩]⟩

def drawRows (limit : Option ℤ) (level : ℤ) (rows : List DropConfig) (pos : ℕ) :
    Except Fault (List Draw × ℕ) := do
  let s ← rows.foldlM (drawRow call limit level) ⟨fun _ => false, fun _ => 0, pos, []⟩
  return (s.draws, s.pos)

/-! ## What heroes get -/

def leadingRole : ℤ := 11000

/-- Exp, or an amount of an item, for the hero at a place of the list. -/
structure HeroGrant where
  place : ℕ
  uuid : ℕ
  item : Option ℤ
  value : BitVec 32

abbrev HeroItems := Slots (BitVec 32)

def heroShare (id : ℤ) (uuid : ℕ) : Option (Option ℤ) :=
  if uuid = 0 then none
  else
    match call.heroGid uuid with
    | none => none
    | some gid =>
      if id = 90000 then if gid = leadingRole then some none else none
      else if id = 90001 then if gid ≠ leadingRole then some none else none
      else some (some id)

/-- The calls of the loop over `hero_item` at the end of `aL_send_drop_reward`. -/
def heroCalls (slots : HeroItems) : List HeroGrant :=
  (((List.range 64).map slots).takeWhile fun c => c.1 ≠ 0).flatMap fun c =>
    if c.2 = 0 then []
    else call.heros.zipIdx.filterMap fun h => (heroShare call c.1 h.1).map fun item => ⟨h.2, h.1, item, c.2⟩

/-- Those of the same loop in `aL_send_reward_by_drop_config`, where the first slot is exp for every hero. -/
def heroCallsByConfig (slots : HeroItems) : List HeroGrant :=
  let present := call.heros.zipIdx.filter fun h => h.1 ≠ 0 ∧ (call.heroGid h.1).isSome
  (if (slots 0).2 = 0 then [] else present.map fun h => ⟨h.2, h.1, none, (slots 0).2⟩) ++
    (((List.range' 1 63).map slots).takeWhile fun c => c.2 ≠ 0).flatMap fun c =>
      if c.1 = 90000 ∨ c.1 = 90001 then [] else present.map fun h => ⟨h.2, h.1, some c.1, c.2⟩

def getLeadingRoleLevel (exp : ℕ → BitVec 32) : ℤ :=
  match call.leader with
  | none => 0
  | some uuid => call.levelOf leadingRole (exp uuid)

/-- `hero_add_normal_exp`: the exp of the heroes after it, or `none` where it is refused. -/
def heroAddNormalExp (exp : ℕ → BitVec 32) (uuid : ℕ) (value : BitVec 32) : Option (ℕ → BitVec 32) :=
  if value.toInt ≤ 0 then none
  else
    match call.heroGid uuid with
    | none => none
    | some gid =>
      if gid ≠ leadingRole ∧ call.levelOf gid (exp uuid + value) > getLeadingRoleLevel call exp * call.factor then none
      else some (update exp uuid (exp uuid + value))

/-- Of the calls, those that are not refused. -/
def granted (call : DropCall) : (ℕ → BitVec 32) → List HeroGrant → (ℕ → BitVec 32) × List HeroGrant
  | exp, [] => (exp, [])
  | exp, g :: gs =>
    match g.item with
    | some _ => ((granted call exp gs).1, g :: (granted call exp gs).2)
    | none =>
      match heroAddNormalExp call exp g.uuid g.value with
      | none => granted call exp gs
      | some exp => ((granted call exp gs).1, g :: (granted call exp gs).2)

def giveHeroes (slots : HeroItems) : List HeroGrant := (granted call call.heroExp (heroCalls call slots)).2

/-! ## `aL_send_reward_by_drop_config` -/

abbrev Collected := List Content × HeroItems

def collectByConfig (acc : Collected) (d : Draw) : Collected :=
  if d.type = 90 ∧ d.id ≠ 90000 then
    if d.id = 0 ∨ d.id = 90001 then
      (acc.1, update acc.2 0 ((acc.2 0).1, (acc.2 0).2 + BitVec.ofInt 32 d.value))
    else
      match (List.range' 1 63).find? fun y => (acc.2 y).1 = 0 ∨ (acc.2 y).1 = d.id with
      | none => acc
      | some y => (acc.1, update acc.2 y (d.id, (acc.2 y).2 + BitVec.ofInt 32 d.value))
  else (addContentTo acc.1 d, acc.2)

/-- What the groups of a drop with items have done so far; `choices` are the choices by weight, with the weights, the number
that the ticket is taken from and whether anything was chosen. -/
structure Choice where
  weights : List ℤ
  total : ℤ
  chosen : Bool

structure GroupState where
  inventory : Inventory
  exp : ℕ → BitVec 32
  pos : ℕ
  contents : List Content
  heroes : List HeroGrant
  choices : List Choice

/-- `aL_send_reward_by_drop_config`, called only where rewards are sent. -/
def sendRewardByDropConfig (level : ℤ) (rows : List DropConfig) (s : GroupState) :
    Except Fault GroupState := do
  let (draws, pos) ← drawRows call none level rows s.pos
  let acc := draws.foldl collectByConfig ([], fun _ => (0, 0))
  let heroes := granted call s.exp (heroCallsByConfig call acc.2)
  return { s with
    inventory := call.commit s.inventory acc.1
    exp := heroes.1
    pos
    contents := s.contents ++ acc.1
    heroes := s.heroes ++ heroes.2 }

/-! ## Drops with items -/

def DropWithItemConfig.canUse (di : DropWithItemConfig) (inv : Inventory) : Bool :=
  if di.itemId > 0 then
    match inv.item (toUnsigned di.itemId) with
    | none => false
    | some limit => ¬ toInt limit < di.itemCount
  else true

def usables (inv : Inventory) : ℤ → List DropWithItemConfig → List DropWithItemConfig → List DropWithItemConfig
  | _, dws, [] => dws
  | priority, dws, di :: rest =>
    if priority ≠ -1 ∧ di.priority > priority then dws
    else
      let dws' := if di.canUse inv then dws ++ [di] else dws
      if dws'.length ≥ 256 then dws' else usables inv (if di.canUse inv then di.priority else priority) dws' rest

def dropWeight (dws : List DropWithItemConfig) : ℤ :=
  let weight := (dws.getLast?.map DropWithItemConfig.weight).getD 0
  if weight > 0 then weight else 1

def chooseDrop (dws : List DropWithItemConfig) (pos : ℕ) : Option DropWithItemConfig × List Choice × ℕ :=
  match dws with
  | [di] => (some di, [], pos)
  | dws =>
    let di := ticket DropWithItemConfig.weight (call.rand pos % dropWeight dws + 1) dws
    (di, [⟨dws.map DropWithItemConfig.weight, dropWeight dws, di.isSome⟩], pos + 1)

def itemRemove (inv : Inventory) (id count : ℤ) : Option Inventory :=
  if toUnsigned count = 0 then some inv
  else
    match inv.item (toUnsigned id) with
    | none => none
    | some limit => if limit < toUnsigned count then none else some (inv.itemRemove (toUnsigned id) limit (toUnsigned count))

def sendGroup (level : ℤ) (s : GroupState) (rows : List DropWithItemConfig) : Except Fault GroupState :=
  match usables s.inventory (-1) [] rows with
  | [] => .ok s
  | dws =>
    let (di, choices, pos) := chooseDrop call dws s.pos
    let s := { s with pos, choices := s.choices ++ choices }
    match di with
    | none => sendRewardByDropConfig call level [] s
    | some di =>
      if di.itemId > 0 then
        match itemRemove s.inventory di.itemId di.itemCount with
        | none => .ok s
        | some inventory => sendRewardByDropConfig call level di.drop { s with inventory }
      else sendRewardByDropConfig call level di.drop s

def maxDropWithItemGroup : ℕ := 5

/-! ## `aL_send_drop_reward` -/

def collect (acc : Collected) (d : Draw) : Collected :=
  if call.sendReward ∧ d.value > 0 then
    if d.type = 90 then (acc.1, slotAdd 64 acc.2 (d.id, BitVec.ofInt 32 d.value))
    else (addContentTo acc.1 d, acc.2)
  else acc

def heroSlots : List (ℤ × BitVec 32) := [(90000, 0), (90001, 0)]

/-- Contents and heroes are what has been granted, `leaked` the contents of each reward that is neither committed nor
rolled back, `seen` the drops looked at. -/
structure DropResult where
  inventory : Inventory
  pos : ℕ
  contents : List Content
  heroes : List HeroGrant
  leaked : List (List Content)
  seen : ℕ
  choices : List Choice

structure LoopState where
  playerLevel : ℤ
  pos : ℕ
  collected : Collected
  seen : ℕ

def dropLevel (playerLevel : ℤ) (d : DropInfo) : ℤ :=
  if d.level = 0 ∧ call.sendReward then playerLevel else d.level

def nextLevel (playerLevel : ℤ) (d : DropInfo) : ℤ := if playerLevel = 0 ∧ d.level > 0 then d.level else playerLevel

def withItems (d : DropInfo) : Option (ℕ → List DropWithItemConfig) :=
  if call.sendReward ∧ call.pid ≠ 0 then call.tables.withItem d.id else none

def finish (inv : Inventory) (s : LoopState) : DropResult :=
  if call.sendReward then
    ⟨call.commit inv s.collected.1, s.pos, s.collected.1, giveHeroes call s.collected.2, [], s.seen, []⟩
  else ⟨inv, s.pos, [], [], [], s.seen, []⟩

def sendDrops (call : DropCall) (inv : Inventory) : LoopState → List DropInfo → Except Fault DropResult
  | s, [] => .ok (finish call inv s)
  | s, d :: ds =>
    let playerLevel := nextLevel s.playerLevel d
    if d.id = 0 then sendDrops call inv { s with playerLevel, seen := s.seen + 1 } ds
    else
      match withItems call d with
      | some groups => do
        let g ← (List.range maxDropWithItemGroup).foldlM
          (fun g i => sendGroup call (dropLevel call s.playerLevel d) g (groups i)) ⟨inv, call.heroExp, s.pos, [], [], []⟩
        return ⟨g.inventory, g.pos, g.contents, g.heroes, [s.collected.1], s.seen + 1, g.choices⟩
      | none =>
        match call.tables.drop d.id with
        | none => sendDrops call inv { s with playerLevel, seen := s.seen + 1 } ds
        | some rows => do
          let (draws, pos) ← drawRows call (some playerLevel) (dropLevel call s.playerLevel d) rows s.pos
          sendDrops call inv ⟨playerLevel, pos, draws.foldl (collect call) s.collected, s.seen + 1⟩ ds

/-- `aL_send_drop_reward`; the values of `rand()` are taken from `pos` on. -/
def aLSendDropReward (inv : Inventory) (drops : List DropInfo) (pos : ℕ) : Except Fault DropResult :=
  sendDrops call inv ⟨if call.sendReward then call.level else 0, pos, ([], slotView heroSlots), 0⟩ drops

end CServer.Logic.Drops
