import CServer.Logic.Goods
import CServer.Modules.Quest

/-! # `world/logic/aL.c`: accepting, cancelling and submitting quests

A quest is brought up to date (`aL_update_quest_status`) whenever it is looked at: a new period or its time limit cancels it.
Submitting consumes costs, and consuming an item raises quest events, which may submit a quest in turn before the first
submission has gone on. So what is left to do is a stack of instructions, of which `questTick` carries out the top one. A
call may begin when nothing is left, and an event also where a reward is granted (`handlers`). The results of nested
calls are not looked at.

Quests are never removed here, so one is found by its id; ids are positive. `config` is what `get_quest_config` returns,
with the opening day of the server in the times. The inventory is what the player has when the costs are looked at, and may
change between two calls and while a reward is granted. Logs, notifications and the contents of drops are left out.

The ledger of a quest is its history since it last came into `QUEST_STATUS_INIT`; `submissions` has the times of all.
-/
namespace CServer.Logic
open CServer.Lib CServer.Modules
open List hiding lookup

/-! ## The configuration -/

structure QuestEvent where
  type : ℤ
  id : ℤ
  count : ℤ

structure QuestConsume extends CostConfig where
  needReset : ℤ

structure QuestReward where
  type : ℤ
  id : ℤ
  value : ℤ
  richvalue : ℤ
  count : ℤ

structure QuestConfig where
  group : ℤ
  autoAccept : ℤ
  onlyAcceptByOtherActivity : Bool
  dependQuest : ℕ
  dependFight : ℤ
  dependLevel : ℤ
  dependItem : ℤ
  nextQuest : ℕ
  nextQuestGroup : ℤ
  nextQuestMenu : ℤ
  event1 : QuestEvent
  event2 : QuestEvent
  consume : List QuestConsume
  reward : List QuestReward
  begin : ℤ
  «end» : ℤ
  period : ℤ
  duration : ℤ
  extraReward : ℤ × ℤ × ℤ
  countLimit : ℤ
  countLimit_lt : countLimit < 2 ^ 31
  timeLimit : ℤ
  dropId : ℤ
  dropCount : ℤ
  relativeToBorn : Bool
  typeFlag : ℤ
  extraRewardTimeLimit : ℤ

structure QuestTable where
  config : ℕ → Option QuestConfig
  group : ℤ → List ℕ
  delay : ℕ → ℤ
  overrideMin : ℤ → ℤ → Bool
  overrideMax : ℤ → ℤ → Bool
  packages : ConsumePackages
  pid : ℕ
  create : ℤ

/-- What is seen of the rest of the player: the level, whether a fight is won, the time of login, whether the menu of
a quest has the one that is selected, the quest the pool draws, and whether the two events of a quest hold where they are about
the state of the player. -/
structure PlayerView where
  level : ℤ
  fight : ℤ → Bool
  login : ℤ
  menu : ℕ → Bool
  pool : Option ℕ
  holds1 : ℕ → Bool
  holds2 : ℕ → Bool

def hasFlag (flags : ℤ) (bit : ℕ) : Bool := decide (flags / 2 ^ bit % 2 = 1)

/-! ### Times -/

def getDayBeginTime (x : ℤ) : ℤ := x - (x + 8 * 3600).tmod 86400

namespace QuestConfig

def beginTime (t : QuestTable) (cfg : QuestConfig) : ℤ :=
  if cfg.relativeToBorn then getDayBeginTime t.create + (cfg.begin - 1) * 86400 else cfg.begin

def endTime (t : QuestTable) (cfg : QuestConfig) : ℤ :=
  if cfg.relativeToBorn then getDayBeginTime t.create + (cfg.end - 1) * 86400 - 1 else cfg.end

def periodOf (cfg : QuestConfig) : ℤ := if cfg.period ≠ 0 then cfg.period else 0xffffffff

def durationOf (cfg : QuestConfig) : ℤ := if cfg.duration ≠ 0 then cfg.duration else cfg.periodOf

def periodPass (t : QuestTable) (cfg : QuestConfig) (now : ℤ) : ℤ := (now - cfg.beginTime t).tmod cfg.periodOf

def periodBegin (t : QuestTable) (cfg : QuestConfig) (now : ℤ) : ℤ := now - cfg.periodPass t now

/-- `is_quest_in_time`, and with the delay of the quest `is_quest_in_time_to_submit`. -/
def inTime (t : QuestTable) (cfg : QuestConfig) (delay now : ℤ) : Bool :=
  decide (¬ (cfg.beginTime t ≠ 0 ∧ now < cfg.beginTime t) ∧ ¬ (cfg.endTime t ≠ 0 ∧ now > cfg.endTime t + delay) ∧
    ¬ cfg.periodPass t now > cfg.durationOf + delay)

end QuestConfig

variable (t : QuestTable)

variable (cfg : QuestConfig)

def isQuestInTime (now : ℤ) : Bool := cfg.inTime t 0 now

def isQuestInTimeToSubmit (id : ℕ) (cfg : QuestConfig) (now : ℤ) : Bool := cfg.inTime t (t.delay id) now

/-! ### `aL_update_quest_status` -/

def timeLimitOver (now : ℤ) (quest : Quest) : Bool :=
  decide (cfg.timeLimit > 0 ∧ quest.acceptTime + cfg.timeLimit < now)

def periodOver (now : ℤ) (quest : Quest) : Bool :=
  decide (cfg.period ≠ 0 ∧ quest.acceptTime < cfg.periodBegin t now)

def resetQuest (quest : Quest) : Quest := questUpdateStatus true quest questStatusCancel (-1) (-1) 0 (-1) (-1) 0 0

def checkTimeLimit (now : ℤ) (quest : Quest) : Quest :=
  if timeLimitOver cfg now quest then resetQuest quest else quest

def updateQuestStatus (now : ℤ) (quest : Quest) : Quest :=
  if quest.status = questStatusCancel then quest
  else checkTimeLimit cfg now (if periodOver t cfg now quest then resetQuest quest else quest)

/-! ### Costs -/

inductive QuestMoment
  | accept
  | cancel
  | submit

namespace QuestConsume

def cost (c : QuestConsume) : Cost := c.toCostConfig.pass

/-- `QUEST_CONSUME_ITEM_FLAG_CLEAN_ON_ACCEPT`, `.._CANCEL` and `.._SUBMIT`. -/
def clean (c : QuestConsume) : QuestMoment → Bool
  | .accept => hasFlag c.needReset 3
  | .cancel => hasFlag c.needReset 4
  | .submit => hasFlag c.needReset 1

def consume (c : QuestConsume) : QuestMoment → Bool
  | .accept => hasFlag c.needReset 2
  | .cancel => false
  | .submit => hasFlag c.needReset 0

/-- The costs checked are those consumed and those with a flag to check them. -/
def check (c : QuestConsume) : QuestMoment → Bool
  | .accept => c.consume .accept || hasFlag c.needReset 5
  | .cancel => false
  | .submit => c.consume .submit || hasFlag c.needReset 6

end QuestConsume

def tryConsumeAll (inv : Inventory) (c : Cost) : Inventory :=
  if c.type = rewardTypeItem then
    match inv.item c.id with
    | none => inv
    | some limit => inv.itemRemove c.id limit limit
  else if c.type = rewardTypeHeroItem then (inv.heroItemRemove 0 c.id (inv.heroItemCount 0 c.id)).2
  else inv

def checkConsumes (m : QuestMoment) (inv : Inventory) (cs : List QuestConsume) : Bool :=
  cs.all fun c => decide (c.type ≠ 0 ∧ c.check m = true → checkForConsume inv 0 c.cost = retSuccess)

def deduct (m : QuestMoment) (inv : Inventory) (c : QuestConsume) : Inventory :=
  if c.type = 0 then inv
  else if c.clean m then tryConsumeAll inv c.cost
  else if c.consume m then (checkAndConsume t.packages t.pid inv 0 c.cost).2
  else inv

def deductedItem (inv : Inventory) (c : Cost) : ℕ :=
  if c.type = consumeItemPackage then ((t.packages c.id).bind (packageItem inv c.value)).elim 0 fun i => i.1 else c.id

/-! ### Events -/

def questEventPlayer : ℤ := 1
def questEventItemConsume : ℤ := 46
def questEventTaskSubmit : ℤ := 56
def questEventOnlineTime : ℤ := 60
def questEventLinghun : ℤ := 70
def questEventItemValue : ℤ := 71
def questEventSometypeTaskFinish : ℤ := 93

def isStateEvent (type id : ℤ) : Bool :=
  type = 34 ∧ id = 1 ∨ type = 62 ∨ type = 37 ∧ (id = 1 ∨ id = 2) ∨ type = 63 ∧ id = 1 ∨ type = 64 ∧ id = 2 ∨
    type ∈ [65, 66, 68, 72, 74, 81, 82, 83, 84, 91, 98, 100, 101, 102]

def onlineTime (v : PlayerView) (now acceptTime : ℤ) : ℤ := if v.login < acceptTime then now - acceptTime else now - v.login

def checkQuestEvent (v : PlayerView) (holds : Bool) (inv : Inventory) (now record acceptTime : ℤ) (e : QuestEvent) :
    Option ℤ :=
  if e.type = questEventPlayer ∧ e.id = 1 then (if v.level < e.count then none else some record)
  else if isStateEvent e.type e.id then (if holds then some record else none)
  else if e.type = questEventOnlineTime then
    if toInt record + onlineTime v now acceptTime < e.count then none else some e.count
  else if e.type = questEventItemValue then
    match inv.item (toUnsigned e.id) with
    | none => none
    | some limit => if toUnsigned e.count ≤ limit then some record else none
  else if toInt record < e.count then none
  else some record

def calcRecord (v : PlayerView) (now acceptTime : ℤ) (type id count record : ℤ) : ℤ :=
  if t.overrideMin type id then (if count < record then count else record)
  else if t.overrideMax type id then (if count > record then count else record)
  else if type = questEventOnlineTime then toInt (record + onlineTime v now acceptTime)
  else toInt (record + count)

def newRecord (v : PlayerView) (now acceptTime : ℤ) (e : QuestEvent) (count record : ℤ) : ℤ :=
  min (calcRecord t v now acceptTime e.type e.id count (toInt record)) e.count

/-- `reward_add_content` for the rewards of this submission and the extra one. -/
def questContents (now : ℤ) (quest : Quest) (rich : Bool) : List (ℤ × ℤ × ℤ) :=
  ((cfg.reward.filter fun r => decide (r.type ≠ 0 ∧ (r.count = 0 ∨ r.count ≥ toInt quest.count))).map fun r =>
      (r.type, r.id, if rich then r.richvalue else r.value)) ++
    if cfg.extraRewardTimeLimit > 0 ∧ now ≤ quest.acceptTime + cfg.extraRewardTimeLimit then [cfg.extraReward] else []

/-! ## The state -/

inductive QuestResume
  | depend (id : ℕ)
  | group (id other : ℕ) (rest : List ℕ)
  | accept (id : ℕ)
  | cancel (id : ℕ)
  | submit (id : ℕ) (rich : Bool) (select : ℕ)
  | event (type eventId count : ℤ) (id : ℕ)

inductive QuestInstr
  | accept (id : ℕ) (fromClient : Bool)
  | cancel (id : ℕ) (fromClient : Bool)
  | submit (id : ℕ) (rich fromClient : Bool) (select : ℕ)
  | onEvent (type eventId count : ℤ) (prev : Option ℕ)
  | update (id : ℕ) (next : QuestResume)
  | expire (id : ℕ)
  | resume (next : QuestResume)
  | acceptGroup (id : ℕ) (others : List ℕ)
  | consume (m : QuestMoment) (c : QuestConsume)
  | pay (id i : ℕ)
  | finish (id : ℕ) (rich : Bool) (select : ℕ) (record1 record2 : ℤ)
  | commit (id : ℕ) (rich : Bool) (select : ℕ)
  | handlers

/-- The rewards committed, the times the count went up by one, and how often each cost was deducted in full. -/
structure QuestLedger where
  rewards : List (List (ℤ × ℤ × ℤ))
  increments : ℕ
  deductions : ℕ → ℕ

def QuestLedger.empty : QuestLedger := ⟨[], 0, fun _ => 0⟩

structure QuestState where
  quests : List Quest
  inventory : Inventory
  now : ℕ
  todo : List QuestInstr
  ledger : ℕ → QuestLedger
  submissions : List (ℕ × ℕ)

def QuestState.start (quests : List Quest) (inventory : Inventory) (now : ℕ) : QuestState :=
  ⟨quests, inventory, now, [], fun _ => QuestLedger.empty, []⟩

def Inventory.worth (inv : Inventory) (c : Cost) : ℤ :=
  match goodOf 0 c.type c.id with
  | some x => inv.count x
  | none => if c.type = rewardTypeHero then inv.heroes c.id else 0

namespace QuestConsume

def onSubmit (c : QuestConsume) : Bool := decide (c.type ≠ 0) && (c.clean .submit || c.consume .submit)

def Full (c : QuestConsume) (inv inv' : Inventory) : Prop :=
  if c.clean .submit then inv'.worth c.cost = 0 else c.cost.Void ∨ inv'.worth c.cost + c.cost.value = inv.worth c.cost

instance (c : QuestConsume) (inv inv' : Inventory) : Decidable (c.Full inv inv') := by
  unfold Full Cost.Void
  infer_instance

end QuestConsume

namespace QuestState

variable (s : QuestState)

def find (id : ℕ) : Option Quest := lookup Quest.id id s.quests

def push (is : List QuestInstr) : QuestState := { s with todo := is ++ s.todo }

def setQuest (id : ℕ) (f : Quest → Quest) : QuestState :=
  { s with quests := adjust Quest.id id f s.quests }

def setLedger (id : ℕ) (l : QuestLedger) : QuestState :=
  { s with ledger := Function.update s.ledger id l }

/-- The events `item_set_limit` raises when the count of an item goes down. -/
def itemEvents (inv inv' : Inventory) (id : ℕ) : List QuestInstr :=
  let change := toInt ((inv'.item id).getD 0 - (inv.item id).getD 0)
  if change < 0 then
    .onEvent questEventItemConsume id (-change) none ::
      if 55001 ≤ id ∧ id ≤ 55999 then [.onEvent questEventLinghun 1 (-change) none] else []
  else []

variable (t : QuestTable)

/-- A cost is taken, and the events raised by it are handled first of all. -/
def take (m : QuestMoment) (c : QuestConsume) (s : QuestState) : QuestState :=
  let inv := deduct t m s.inventory c
  { s with inventory := inv }.push (itemEvents s.inventory inv (deductedItem t s.inventory c.cost))

/-! ### Accepting -/

variable (v : PlayerView)

def beginAccept (s : QuestState) (id : ℕ) (fromClient : Bool) : List QuestInstr :=
  match t.config id with
  | none => []
  | some cfg =>
    if cfg.onlyAcceptByOtherActivity && fromClient then []
    else if ¬ isQuestInTime t cfg s.now then []
    else if v.level < cfg.dependLevel then []
    else if cfg.dependFight ≠ 0 ∧ v.fight cfg.dependFight = false then []
    else if cfg.dependQuest = 0 then [.resume (.depend id)]
    else
      match s.find cfg.dependQuest with
      | none => []
      | some _ => [.update cfg.dependQuest (.depend id)]

variable (s : QuestState)

def acceptDepend (id : ℕ) : List QuestInstr :=
  match t.config id with
  | none => []
  | some cfg =>
    if cfg.dependQuest ≠ 0 ∧ (s.find cfg.dependQuest).elim 0 (fun q => q.count) = 0 then []
    else if cfg.dependItem ≠ 0 ∧ (s.inventory.item (toUnsigned cfg.dependItem)).getD 0 = 0 then []
    else if ¬ checkConsumes .accept s.inventory cfg.consume then []
    else [.acceptGroup id (if cfg.group > 0 then t.group cfg.group else [])]

def acceptNext (id other : ℕ) (rest : List ℕ) : List QuestInstr :=
  if other = id then [.acceptGroup id rest]
  else
    match s.find other with
    | none => [.acceptGroup id rest]
    | some _ => [.update other (.group id other rest)]

def acceptOther (id other : ℕ) (rest : List ℕ) : List QuestInstr :=
  match s.find other with
  | none => [.acceptGroup id rest]
  | some quest => if quest.status = questStatusInit then [] else [.acceptGroup id rest]

def consumes (m : QuestMoment) (id : ℕ) : List QuestInstr :=
  match t.config id with
  | none => []
  | some cfg => cfg.consume.map fun c => .consume m c

def newQuest (id : ℕ) : Quest := ⟨s.quests.length, id, questStatusInit, 0, 0, 0, 0, 0, s.now, 0, 0⟩

def acceptNew (id : ℕ) : QuestState :=
  match s.find id with
  | some _ => s.push [.update id (.accept id)]
  | none =>
    ({ s with quests := s.quests ++ [s.newQuest id] }.setLedger id QuestLedger.empty).push (consumes t .accept id)

/-- The quest comes into `QUEST_STATUS_INIT` again. -/
def opens (id : ℕ) : Bool :=
  match s.find id, t.config id with
  | some quest, some cfg =>
    decide (quest.status ≠ questStatusInit ∧ ¬ (cfg.countLimit > 0 ∧ toInt quest.count ≥ cfg.countLimit))
  | _, _ => false

def openQuest (now : ℤ) (quest : Quest) : Quest := questUpdateStatus true quest questStatusInit 0 0 (-1) 0 0 now 0

def acceptAgain (id : ℕ) : QuestState :=
  if s.opens t id then ((s.setQuest id (openQuest s.now)).setLedger id QuestLedger.empty).push (consumes t .accept id) else s

/-! ### Cancelling -/

def beginCancel (id : ℕ) (fromClient : Bool) : List QuestInstr :=
  match t.config id with
  | none => []
  | some cfg =>
    if cfg.onlyAcceptByOtherActivity && fromClient then []
    else if ¬ isQuestInTime t cfg s.now then []
    else
      match s.find id with
      | none => []
      | some _ => [.update id (.cancel id)]

def cancelQuest (quest : Quest) : Quest := questUpdateStatus true quest questStatusCancel (-1) (-1) (-1) (-1) (-1) 0 0

def isInit (id : ℕ) : Bool := (s.find id).any fun quest => decide (quest.status = questStatusInit)

def cancelRest (id : ℕ) : QuestState :=
  if s.isInit id then (s.setQuest id cancelQuest).push (consumes t .cancel id) else s

/-! ### Submitting -/

def beginSubmit (id : ℕ) (rich fromClient : Bool) (select : ℕ) : List QuestInstr :=
  match t.config id with
  | none => []
  | some cfg =>
    if cfg.onlyAcceptByOtherActivity && fromClient then []
    else if ¬ isQuestInTimeToSubmit t id cfg s.now then []
    else
      match s.find id with
      | none => []
      | some _ => [.update id (.submit id rich select)]

def checkSubmit (s : QuestState) (id : ℕ) : Option (ℤ × ℤ) :=
  match s.find id, t.config id with
  | some quest, some cfg =>
    if quest.status ≠ questStatusInit then none
    else if cfg.nextQuestMenu ≠ 0 ∧ v.menu id = false then none
    else
      match checkQuestEvent v (v.holds1 id) s.inventory s.now quest.record1 quest.acceptTime cfg.event1,
        checkQuestEvent v (v.holds2 id) s.inventory s.now quest.record2 quest.acceptTime cfg.event2 with
      | some record1, some record2 =>
        if checkConsumes .submit s.inventory cfg.consume then some (record1, record2) else none
      | _, _ => none
  | _, _ => none

def submitRest (s : QuestState) (id : ℕ) (rich : Bool) (select : ℕ) : List QuestInstr :=
  match s.checkSubmit t v id, t.config id with
  | some (record1, record2), some cfg =>
    (List.range cfg.consume.length).map (.pay id) ++ [.finish id rich select record1 record2]
  | _, _ => []

def costOf (id i : ℕ) : Option QuestConsume := (t.config id).bind fun cfg => cfg.consume[i]?

def deducted (l : QuestLedger) (i : ℕ) : QuestLedger :=
  { l with deductions := Function.update l.deductions i (l.deductions i + 1) }

def payCost (id i : ℕ) : QuestState :=
  match costOf t id i with
  | none => s
  | some c =>
    let s' := s.take t .submit c
    if c.onSubmit ∧ c.Full s.inventory s'.inventory then s'.setLedger id (deducted (s.ledger id) i) else s'

def finishQuest (now record1 record2 : ℤ) (quest : Quest) : Quest :=
  questUpdateStatus true quest questStatusFinish (if record1 ≠ quest.record1 then toInt record1 else -1)
    (if record2 ≠ quest.record2 then toInt record2 else -1) (toInt (quest.count + 1)) (-1) (-1) 0 now

def drops (cfg : QuestConfig) (quest : Quest) : List QuestInstr :=
  if cfg.dropId ≠ 0 ∧ (cfg.dropCount = 0 ∨ cfg.dropCount ≥ toInt quest.count) then [.handlers] else []

def finish (id : ℕ) (rich : Bool) (select : ℕ) (record1 record2 : ℤ) : QuestState :=
  match s.find id, t.config id with
  | some quest, some cfg =>
    let quest' := finishQuest s.now record1 record2 quest
    let l := s.ledger id
    let l' := { l with increments := if quest'.count = quest.count + 1 then l.increments + 1 else l.increments }
    { (s.setQuest id (finishQuest s.now record1 record2)).setLedger id l' with
      submissions := s.submissions ++ [(id, s.now)] }.push (drops cfg quest' ++ [QuestInstr.commit id rich select])
  | _, _ => s

def autoAccepts (id : ℕ) : Bool := (t.config id).any fun cfg => hasFlag cfg.autoAccept 0

def nextQuests (cfg : QuestConfig) (select : ℕ) : List QuestInstr :=
  (if cfg.nextQuest ≠ 0 ∧ autoAccepts t cfg.nextQuest then [.accept cfg.nextQuest true] else []) ++
    (if cfg.nextQuestGroup ≠ 0 ∧ v.pool.any (autoAccepts t) then [.accept cfg.nextQuest true] else []) ++
    (if cfg.nextQuestMenu ≠ 0 ∧ select ≠ 0 then [.accept select true] else [])

def commit (s : QuestState) (id : ℕ) (rich : Bool) (select : ℕ) : QuestState :=
  match s.find id, t.config id with
  | some quest, some cfg =>
    let l := s.ledger id
    (s.setLedger id { l with rewards := l.rewards ++ [questContents cfg s.now quest rich] }).push
      (.handlers :: nextQuests t v cfg select ++
        [.onEvent questEventTaskSubmit id 1 none, .onEvent questEventSometypeTaskFinish cfg.typeFlag 1 none])
  | _, _ => s

/-! ### Events and the update of a quest -/

def questNext : Option ℕ → Option Quest
  | none => s.quests.head?
  | some id => (s.quests.dropWhile fun q => q.id ≠ id).tail.head?

def beginEvent (type eventId count : ℤ) (prev : Option ℕ) : List QuestInstr :=
  match s.questNext prev with
  | none => []
  | some quest =>
    match t.config quest.id with
    | none => [.onEvent type eventId count (some quest.id)]
    | some _ => [.update quest.id (.event type eventId count quest.id)]

def countEvent (now : ℤ) (cfg : QuestConfig) (type eventId count : ℤ) (quest : Quest) :
    Option (ℤ × ℤ) :=
  if cfg.event1.type = type ∧ cfg.event1.id = eventId then
    some (newRecord t v now quest.acceptTime cfg.event1 count quest.record1, toInt quest.record2)
  else if cfg.event2.type = type ∧ cfg.event2.id = eventId then
    some (toInt quest.record1, newRecord t v now quest.acceptTime cfg.event2 count quest.record2)
  else none

def recordQuest (r : ℤ × ℤ) (quest : Quest) : Quest :=
  questUpdateStatus true quest quest.status r.1 r.2 (-1) (-1) (-1) 0 0

def recordEvent (s : QuestState) (type eventId count : ℤ) (id : ℕ) : QuestState :=
  let next := QuestInstr.onEvent type eventId count (some id)
  match s.find id, t.config id with
  | some quest, some cfg =>
    if isQuestInTime t cfg s.now ∧ quest.status = questStatusInit then
      match countEvent t v s.now cfg type eventId count quest with
      | none => s.push [next]
      | some r =>
        (s.setQuest id (recordQuest r)).push
          (if hasFlag cfg.autoAccept 1 ∧ r.1 ≥ cfg.event1.count ∧ r.2 ≥ cfg.event2.count then
            [.submit id false true 0, next] else [next])
    else s.push [next]
  | _, _ => s.push [next]

/-- `aL_update_quest_status`. A quest reset by its period may be accepted at once, before the time limit is
looked at. -/
def updateQuest (id : ℕ) (next : QuestResume) : QuestState :=
  match s.find id, t.config id with
  | some quest, some cfg =>
    if quest.status ≠ questStatusCancel ∧ periodOver t cfg s.now quest ∧ hasFlag cfg.autoAccept 0 then
      (s.setQuest id resetQuest).push [.accept id true, .expire id, .resume next]
    else (s.setQuest id (updateQuestStatus t cfg s.now)).push [.resume next]
  | _, _ => s.push [.resume next]

def expireQuest (id : ℕ) : QuestState :=
  match t.config id with
  | none => s
  | some cfg => s.setQuest id (checkTimeLimit cfg s.now)

/-! ## Steps -/

def exec (s : QuestState) : QuestInstr → QuestState
  | .accept id fromClient => s.push (s.beginAccept t v id fromClient)
  | .cancel id fromClient => s.push (s.beginCancel t id fromClient)
  | .submit id rich fromClient select => s.push (s.beginSubmit t id rich fromClient select)
  | .onEvent type eventId count prev => s.push (s.beginEvent t type eventId count prev)
  | .update id next => s.updateQuest t id next
  | .expire id => s.expireQuest t id
  | .resume (.depend id) => s.push (s.acceptDepend t id)
  | .resume (.group id other rest) => s.push (s.acceptOther id other rest)
  | .resume (.accept id) => s.acceptAgain t id
  | .resume (.cancel id) => s.cancelRest t id
  | .resume (.submit id rich select) => s.push (s.submitRest t v id rich select)
  | .resume (.event type eventId count id) => s.recordEvent t v type eventId count id
  | .acceptGroup id [] => s.acceptNew t id
  | .acceptGroup id (other :: rest) => s.push (s.acceptNext id other rest)
  | .consume m c => s.take t m c
  | .pay id i => s.payCost t id i
  | .finish id rich select record1 record2 => s.finish t id rich select record1 record2
  | .commit id rich select => s.commit t v id rich select
  | .handlers => s

end QuestState

inductive QuestAct
  | accept (id : ℕ) (fromClient : Bool)
  | cancel (id : ℕ) (fromClient : Bool)
  | submit (id : ℕ) (rich fromClient : Bool) (select : ℕ)
  | onEvent (type eventId count : ℤ)
  | inventory (inv : Inventory)
  | time (now : ℕ)
  | tick (v : PlayerView)

namespace QuestState

def idle (s : QuestState) : Bool := s.todo.isEmpty

def outside (s : QuestState) : Bool :=
  match s.todo with
  | [] => true
  | .handlers :: _ => true
  | _ :: _ => false

end QuestState

def questStep (s : QuestState) : QuestAct → Except Fault QuestState
  | .accept id fromClient => return if s.idle then s.push [.accept id fromClient] else s
  | .cancel id fromClient => return if s.idle then s.push [.cancel id fromClient] else s
  | .submit id rich fromClient select => return if s.idle then s.push [.submit id rich fromClient select] else s
  | .onEvent type eventId count => return if s.outside then s.push [.onEvent type eventId count none] else s
  | .inventory inv => return if s.outside then { s with inventory := inv } else s
  | .time now => return if s.idle ∧ s.now ≤ now then { s with now := now } else s
  | .tick v =>
    match s.todo with
    | [] => return s
    | i :: rest => return { s with todo := rest }.exec t v i

/-! ## What is pushed -/

section Pushed
variable {t : QuestTable} {v : PlayerView} {s : QuestState} {j : QuestInstr}

theorem mem_itemEvents {inv inv' : Inventory} {id : ℕ} (h : j ∈ QuestState.itemEvents inv inv' id) :
    ∃ type eventId count, j = .onEvent type eventId count none := by
  unfold QuestState.itemEvents at h
  simp only at h
  split at h
  · rcases mem_cons.mp h with rfl | h
    · exact ⟨_, _, _, rfl⟩
    · split at h
      · exact ⟨_, _, _, mem_singleton.mp h⟩
      · cases h
  · cases h

theorem mem_consumes {m : QuestMoment} {id : ℕ} (h : j ∈ QuestState.consumes t m id) : ∃ c, j = .consume m c := by
  unfold QuestState.consumes at h
  split at h
  · cases h
  · obtain ⟨c, -, rfl⟩ := mem_map.mp h
    exact ⟨c, rfl⟩

theorem mem_beginAccept {id : ℕ} {fromClient : Bool} (h : j ∈ s.beginAccept t v id fromClient) :
    (∀ cfg, t.config id = some cfg → isQuestInTime t cfg s.now = true) ∧
      (j = .resume (.depend id) ∨ ∃ dep, j = .update dep (.depend id)) := by
  unfold QuestState.beginAccept at h
  split at h
  · cases h
  · next cfg hcfg =>
    split at h
    · cases h
    · split at h
      · cases h
      · next hin =>
        refine ⟨fun c hc => ?_, ?_⟩
        · obtain rfl := some_unique hcfg hc
          exact not_not.mp hin
        · split at h
          · cases h
          · split at h
            · cases h
            · split at h
              · exact .inl (mem_singleton.mp h)
              · split at h
                · cases h
                · exact .inr ⟨_, mem_singleton.mp h⟩

theorem mem_acceptDepend {id : ℕ} (h : j ∈ s.acceptDepend t id) : ∃ others, j = .acceptGroup id others := by
  unfold QuestState.acceptDepend at h
  split at h
  · cases h
  · split at h
    · cases h
    · split at h
      · cases h
      · split at h
        · cases h
        · exact ⟨_, mem_singleton.mp h⟩

theorem mem_acceptNext {id other : ℕ} {rest : List ℕ} (h : j ∈ s.acceptNext id other rest) :
    j = .acceptGroup id rest ∨ j = .update other (.group id other rest) := by
  unfold QuestState.acceptNext at h
  split at h
  · exact .inl (mem_singleton.mp h)
  · split at h
    · exact .inl (mem_singleton.mp h)
    · exact .inr (mem_singleton.mp h)

theorem mem_acceptOther {id other : ℕ} {rest : List ℕ} (h : j ∈ s.acceptOther id other rest) :
    j = .acceptGroup id rest := by
  unfold QuestState.acceptOther at h
  split at h
  · exact mem_singleton.mp h
  · split at h
    · cases h
    · exact mem_singleton.mp h

theorem beginCancel_cases (t : QuestTable) (s : QuestState) (id : ℕ) (fromClient : Bool) :
    s.beginCancel t id fromClient = [] ∨ s.beginCancel t id fromClient = [.update id (.cancel id)] := by
  unfold QuestState.beginCancel
  split
  · exact .inl rfl
  · split
    · exact .inl rfl
    · split
      · exact .inl rfl
      · split
        · exact .inl rfl
        · exact .inr rfl

theorem mem_beginSubmit {id select : ℕ} {rich fromClient : Bool} (h : j ∈ s.beginSubmit t id rich fromClient select) :
    j = .update id (.submit id rich select) := by
  unfold QuestState.beginSubmit at h
  split at h
  · cases h
  · split at h
    · cases h
    · split at h
      · cases h
      · split at h
        · cases h
        · exact mem_singleton.mp h

theorem mem_beginEvent {type eventId count : ℤ} {prev : Option ℕ} (h : j ∈ s.beginEvent t type eventId count prev) :
    ∃ id, j = .onEvent type eventId count (some id) ∨ j = .update id (.event type eventId count id) := by
  unfold QuestState.beginEvent at h
  split at h
  · cases h
  · split at h
    · exact ⟨_, .inl (mem_singleton.mp h)⟩
    · exact ⟨_, .inr (mem_singleton.mp h)⟩

theorem mem_drops {cfg : QuestConfig} {quest : Quest} (h : j ∈ QuestState.drops cfg quest) : j = .handlers := by
  unfold QuestState.drops at h
  split at h
  · exact mem_singleton.mp h
  · cases h

theorem mem_nextQuests {cfg : QuestConfig} {select : ℕ} (h : j ∈ QuestState.nextQuests t v cfg select) :
    ∃ id, j = .accept id true := by
  have hone : ∀ {c : Prop} [Decidable c] {id : ℕ}, j ∈ (if c then [QuestInstr.accept id true] else []) →
      j = .accept id true := by
    intro c _ id h
    split at h
    · exact mem_singleton.mp h
    · cases h
  unfold QuestState.nextQuests at h
  rcases mem_append.mp h with h | h
  · rcases mem_append.mp h with h | h
    · exact ⟨_, hone h⟩
    · exact ⟨_, hone h⟩
  · exact ⟨_, hone h⟩

end Pushed

/-! ## What changes a quest -/

section Moves
variable {t : QuestTable} {s : QuestState}

@[simp] theorem find_push (is : List QuestInstr) (q : ℕ) : (s.push is).find q = s.find q := rfl

@[simp] theorem find_setLedger (id : ℕ) (l : QuestLedger) (q : ℕ) : (s.setLedger id l).find q = s.find q := rfl

theorem find_setQuest (f : Quest → Quest) (hf : ∀ a, (f a).id = a.id) (id q : ℕ) :
    (s.setQuest id f).find q = if q = id then (s.find id).map f else s.find q :=
  lookup_adjust (fun q hq => (hf q).trans hq) s.quests

theorem find_newQuest (id q : ℕ) :
    ({ s with quests := s.quests ++ [s.newQuest id] } : QuestState).find q =
      (s.find q).or (if id = q then some (s.newQuest id) else none) :=
  lookup_snoc

theorem tryUpdate_eq {key old : ℤ} (hkey : 0 ≤ key) (hold : -2 ^ 31 ≤ old) (hold' : old < 2 ^ 31) :
    (tryUpdate key old).1 = key := by
  unfold tryUpdate
  split
  · rfl
  · next h =>
    rw [toInt_of_int hold hold'] at h
    simp only
    omega

theorem tryUpdate_neg {key old : ℤ} (hkey : key < 0) : (tryUpdate key old).1 = old := by
  unfold tryUpdate
  rw [if_neg fun h => absurd h.1 (not_le.mpr hkey)]

theorem tryUpdate_self (old : ℤ) : (tryUpdate old old).1 = old := by
  unfold tryUpdate
  split
  · rfl
  · rfl

theorem tryUpdate_ne_zero {key old : ℤ} (hkey : 0 < key) : (tryUpdate key old).1 ≠ 0 := by
  unfold tryUpdate
  split
  · exact ne_of_gt hkey
  · next h =>
    intro h0
    simp only at h0
    subst h0
    rw [toInt_of_int (by omega) (by omega)] at h
    omega

theorem resetQuest_status (quest : Quest) : (resetQuest quest).status ≠ questStatusInit :=
  tryUpdate_ne_zero (by decide)

theorem cancelQuest_status (quest : Quest) : (QuestState.cancelQuest quest).status ≠ questStatusInit :=
  tryUpdate_ne_zero (by decide)

theorem finishQuest_status (now record1 record2 : ℤ) (quest : Quest) :
    (QuestState.finishQuest now record1 record2 quest).status ≠ questStatusInit :=
  tryUpdate_ne_zero (by decide)

theorem finishQuest_count (now record1 record2 : ℤ) {quest : Quest} (h : 0 ≤ quest.count) (h' : quest.count < 2 ^ 31 - 1) :
    (QuestState.finishQuest now record1 record2 quest).count = quest.count + 1 := by
  have hint : toInt (quest.count + 1) = quest.count + 1 := toInt_of_int (by omega) (by omega)
  unfold QuestState.finishQuest questUpdateStatus
  simp only [hint]
  exact tryUpdate_eq (by omega) (by omega) (by omega)

theorem recordQuest_status (r : ℤ × ℤ) (quest : Quest) : (QuestState.recordQuest r quest).status = quest.status :=
  tryUpdate_self quest.status

variable (cfg : QuestConfig)

theorem checkTimeLimit_cases (now : ℤ) (quest : Quest) :
    checkTimeLimit cfg now quest = quest ∨ checkTimeLimit cfg now quest = resetQuest quest := by
  unfold checkTimeLimit
  split
  · exact .inr rfl
  · exact .inl rfl

theorem checkTimeLimit_id (now : ℤ) (quest : Quest) : (checkTimeLimit cfg now quest).id = quest.id := by
  rcases checkTimeLimit_cases cfg now quest with h | h
  · rw [h]
  · rw [h]
    rfl

theorem checkTimeLimit_status (now : ℤ) (quest : Quest)
    (h : (checkTimeLimit cfg now quest).status = questStatusInit) : quest.status = questStatusInit := by
  rcases checkTimeLimit_cases cfg now quest with he | he
  · rwa [he] at h
  · rw [he] at h
    exact absurd h (resetQuest_status quest)

theorem updateQuestStatus_id (now : ℤ) (quest : Quest) :
    (updateQuestStatus t cfg now quest).id = quest.id := by
  unfold updateQuestStatus
  split
  · rfl
  · rw [checkTimeLimit_id]
    split
    · rfl
    · rfl

theorem updateQuestStatus_status (now : ℤ) (quest : Quest)
    (h : (updateQuestStatus t cfg now quest).status = questStatusInit) : quest.status = questStatusInit := by
  unfold updateQuestStatus at h
  split at h
  · exact h
  · have h' := checkTimeLimit_status cfg now _ h
    split at h'
    · exact absurd h' (resetQuest_status quest)
    · exact h'

end Moves

end CServer.Logic
