import CServer.Fight.TimelineQueue
import CServer.Lib.Exec
import CServer.Lib.Keyed
import CServer.Lib.Memory

/-! # `fight/battlefield/Timeline.lua`: who acts when in a battle

`Tick` gives the objects of a round their turns; scripts add, summon, remove and revive objects, make them wait, and end
their turns. Most of this runs in callbacks: the listeners of `DispatchSync`, the script of an entering object,
`PrepareCommand`, `Action`. So an operation is a list of instructions on a stack; a callback is one of them, and while it is
on top, or the stack is empty, further operations may begin. A failing assertion, or arithmetic on `nil`, gives up the rest
of its operation, whose end is marked on the stack. Queued events arrive between ticks.

What `Renew` and `PrepareCommand` return, and whether an action ends with `UNIT_FINISHED`, is chosen by the run. `log` keeps,
last first, what the timeline dispatches and counts, its calls of `NextWave` and its failing assertions. `max_wave`,
`obj.round`, `error` and the input flags are never read by it and are left out.
-/
namespace CServer.Fight
open CServer.Lib Function

/-! ## Lua tables with integer keys -/

abbrev LuaTable (β : Type) := List (ℕ × β)

namespace LuaTable
variable {β : Type}

def get (t : LuaTable β) (k : ℕ) : Option β := (lookup Prod.fst k t).map Prod.snd

def unset (t : LuaTable β) (k : ℕ) : LuaTable β := discard Prod.fst k t

def set (t : LuaTable β) (k : ℕ) (v : β) : LuaTable β := (k, v) :: t.unset k

def ipairs (t : LuaTable β) : List (ℕ × β) :=
  (((List.range t.length).map fun k => (t.get (k + 1)).map fun v => (k + 1, v)).takeWhile Option.isSome).reduceOption

end LuaTable

/-! ## The data -/

structure TimelineUnit where
  id : ℕ
  side : ℕ
  shareMode : ℕ
  enterScript : Bool

structure TimelineConfig where
  unit : ℕ → TimelineUnit
  workAsDefender : Bool
  failedRoundLimit : Option ℕ
  winRoundLimit : Option ℕ
  tableSort : TableSort

inductive TimelineError
  | noSide
  | addedTwice
  | wrongWave
  | notInTimeline
  | roundTick
  | tooMuchAction
  | nilValue
deriving DecidableEq

inductive TickReason
  | objFinished
  | beforeAction
  | prepareAction
  | readyAction
  | startAction
  | endAction
  | beforeRound
  | wave
  | finished
deriving DecidableEq

inductive TimelineEvent
  | enter (obj : ℕ)
  | removed (obj : ℕ)
  | afterAction (obj : ℕ)
  /-- `Tick` goes on with this object: it begins, prepares or carries out an action. -/
  | turn (obj : ℕ)
  | action (obj : ℕ)
  /-- `NextRound`, with the objects then in the queues. -/
  | beforeRound (objs : List ℕ)
  /-- `Tick` ends a round because no object is left. -/
  | noObject
  | nextWave
  /-- The counter jumps to `total_round * 1000`. -/
  | roundEnd
  | ticked (reason : TickReason)
  | failed (error : TimelineError)
deriving DecidableEq

inductive TimelineInstr
  | callback
  | ret
  | add (obj wave : ℕ)
  | resetWinner
  | unitFinishedEnd
  | tickRest (renew ready : Bool)
  | beforeActionEnd
  | prepared (obj : ℕ) (ready : Bool)
  | checkWinner
  | finishRound
  | finishRoundEnd
  | finisheWave
  | callNextRound
  | callNextWave
  | nextWave
  | waveAdded (currentWave : ℕ)
  | finished
  | finishedEnd
  | tooMuchAction
deriving DecidableEq

structure Timeline where
  round : ℕ
  wave : ℕ
  totalRound : ℕ
  waves : LuaTable (List ℕ)
  assitObjects : ℕ → Option ℕ
  currentQueue : TimelineArray
  nextQueue : TimelineArray
  waitStack : TimelineArray
  deadList : List ℕ
  objectTick : ℕ → Option ℕ
  sideLeft : LuaTable ℤ
  winner : Option ℕ
  forceWinner : Option ℕ
  enterScriptCount : ℕ
  tick : ℕ
  nextTickAction : List ℕ
  running : Bool
  finishedInTick : Bool
  callNextWaveOnNextTick : Bool
  callNextRoundOnNextTick : Bool
  callObjActionNextTick : Bool
  currentRunningObj : Option ℕ
  currentRunningObjPrepared : Bool
  lastFinishedWave : Option ℕ
  /-- The fields the timeline reads and writes in the objects. -/
  lock : ℕ → Bool
  timeline : ℕ → Bool
  speed : ℕ → ℤ
  pos : ℕ → ℕ
  /-- The objects whose `Action` runs or sleeps. -/
  acting : List ℕ
  /-- The queued `UNIT_FINISHED` events. -/
  events : List ℕ
  todo : List TimelineInstr
  log : List TimelineEvent

def timelineNew (speed : ℕ → ℤ) (pos : ℕ → ℕ) : Timeline where
  round := 0
  wave := 0
  totalRound := 0
  waves := []
  assitObjects _ := none
  currentQueue := .new
  nextQueue := .new
  waitStack := .new
  deadList := []
  objectTick _ := none
  sideLeft := []
  winner := some 0
  forceWinner := none
  enterScriptCount := 0
  tick := 0
  nextTickAction := []
  running := false
  finishedInTick := false
  callNextWaveOnNextTick := false
  callNextRoundOnNextTick := false
  callObjActionNextTick := false
  currentRunningObj := none
  currentRunningObjPrepared := false
  lastFinishedWave := none
  lock _ := false
  timeline _ := false
  speed := speed
  pos := pos
  acting := []
  events := []
  todo := []
  log := []

namespace Timeline

variable (cfg : TimelineConfig) (s : Timeline)

def push (is : List TimelineInstr) : Timeline := { s with todo := is ++ s.todo }

def note (e : TimelineEvent) : Timeline := { s with log := e :: s.log }

/-- `self.tick = self.tick + 1`. -/
def bump (reason : TickReason) : Timeline :=
  { s with tick := s.tick + 1, log := .ticked reason :: s.log }

def afterRet : List TimelineInstr → List TimelineInstr
  | [] => []
  | .ret :: is => is
  | _ :: is => afterRet is

def fail (e : TimelineError) : Timeline :=
  { s with todo := afterRet s.todo, log := .failed e :: s.log }

/-! ## The order of a queue -/

/-- The comparison of `order_queue_sort`, a `function(b, a)`. -/
def before (b a : ℕ) : Bool :=
  if s.lock a ≠ s.lock b then s.lock a
  else if (cfg.unit a).shareMode = 2 ∧ (cfg.unit b).shareMode ≠ 2 then false
  else if (cfg.unit a).shareMode ≠ 2 ∧ (cfg.unit b).shareMode = 2 then true
  else if s.speed a ≠ s.speed b then decide (s.speed a > s.speed b)
  else if (cfg.unit a).side ≠ (cfg.unit b).side then
    if cfg.workAsDefender then decide ((cfg.unit a).side ≥ (cfg.unit b).side)
    else decide ((cfg.unit a).side < (cfg.unit b).side)
  else decide (s.pos a < s.pos b)

def sort (q : TimelineArray) : TimelineArray :=
  q.arranged cfg.tableSort (s.before cfg) (s.assitObjects 1) fun obj => (cfg.unit obj).side == 1

def nextObj : Option ℕ := s.currentQueue.peek <|> s.waitStack.peek

/-! ## The operations -/

def enqueue (obj : ℕ) : Timeline :=
  let side := (cfg.unit obj).side
  let s := { s with
    timeline := update s.timeline obj true
    sideLeft := if s.assitObjects side ≠ some obj then s.sideLeft.set side ((s.sideLeft.get side).getD 0 + 1)
      else s.sideLeft
    nextQueue := s.nextQueue.push obj }
  { s with nextQueue := s.sort cfg s.nextQueue }.note (.enter obj)

def enterTimeline (obj : ℕ) : Timeline :=
  let s := s.enqueue cfg obj
  if (cfg.unit obj).enterScript then
    { s with enterScriptCount := s.enterScriptCount + 1, running := true }.push [.callback]
  else s

def add (obj wave : ℕ) : Timeline :=
  if (cfg.unit obj).side = 0 then s.fail .noSide
  else if s.timeline obj then s.fail .addedTwice
  else if wave < s.wave then s.fail .wrongWave
  else
    let s := { s with lock := update s.lock obj false, winner := none }
    if wave = s.wave then s.enterTimeline cfg obj
    else { s with waves := s.waves.set wave ((s.waves.get wave).getD [] ++ [obj]) }

def finishCurrent (obj : ℕ) : Timeline :=
  let s := { s with
    currentQueue := s.currentQueue.remove obj
    nextQueue := s.nextQueue.push obj
    lock := update s.lock obj false }
  { s with currentQueue := s.sort cfg s.currentQueue, nextQueue := s.sort cfg s.nextQueue }.note (.afterAction obj)

def finishWaiting (obj : ℕ) : Timeline :=
  let s := { s with
    waitStack := s.waitStack.remove obj
    nextQueue := s.nextQueue.push obj
    lock := update s.lock obj false }
  { s with nextQueue := s.sort cfg s.nextQueue }.note (.afterAction obj)

/-- `UNIT_FINISHED`; `rest` is what the caller does after it. -/
def unitFinished (obj : ℕ) (rest : List TimelineInstr) : Timeline :=
  if obj ∈ s.currentQueue.array then (s.finishCurrent cfg obj).push ([.callback, .unitFinishedEnd] ++ rest)
  else if obj ∈ s.waitStack.array then (s.finishWaiting cfg obj).push ([.callback, .unitFinishedEnd] ++ rest)
  else s.push (.unitFinishedEnd :: rest)

/-- The first of the queued `UNIT_FINISHED` events arrives. -/
def deliver : Timeline :=
  match s.events with
  | [] => s
  | obj :: events => { s with events := events }.unitFinished cfg obj [.ret]

def unitSpeedChange (obj : ℕ) : Timeline :=
  if s.currentQueue.find obj then { s with currentQueue := s.sort cfg s.currentQueue }
  else if s.nextQueue.find obj then { s with nextQueue := s.sort cfg s.nextQueue }
  else s

def wait (obj : ℕ) : Timeline :=
  { s with currentQueue := s.currentQueue.remove obj, waitStack := s.waitStack.push obj }

def assistantToPostpone (obj : ℕ) : Option ℕ :=
  (s.assitObjects (cfg.unit obj).side).filter fun assistant => decide (obj ≠ assistant) && s.currentQueue.find assistant

def unitWait (obj : ℕ) : Timeline :=
  let s := { s with lock := update s.lock obj false }
  if s.currentQueue.find obj then
    match s.assistantToPostpone cfg obj with
    | some assistant => (s.wait assistant).wait obj
    | none => s.wait obj
  else s

def unitRelive (obj : ℕ) : Timeline :=
  if obj ∈ s.deadList then { s with deadList := s.deadList.erase obj }.push [.add obj s.wave, .ret] else s

/-- The keys of `waves` in the order in which `pairs` visits them, which may be any. -/
def waveOrder (visit : List ℕ) : List ℕ :=
  visit.filter (fun w => decide (w ∈ s.waves.map Prod.fst)) ++ s.waves.map Prod.fst

def isSummoned (id pos obj : ℕ) : Bool :=
  decide ((cfg.unit obj).id = id ∧ s.pos obj = pos)

def findSummoned (id pos : ℕ) (visit : List ℕ) : Option (ℕ × ℕ) :=
  (s.waveOrder visit).findSome? fun w =>
    (((s.waves.get w).getD []).find? (s.isSummoned cfg id pos)).map fun obj => (w, obj)

def summon (id pos : ℕ) (remove : Bool) (visit : List ℕ) : Timeline :=
  match s.findSummoned cfg id pos visit with
  | none => s
  | some (w, obj) =>
    let s := if remove then
        { s with waves := s.waves.set w (((s.waves.get w).getD []).eraseP (s.isSummoned cfg id pos)) }
      else s
    s.push [.add obj s.wave, .ret]

/-- The second half of `Remove`, for an object taken out of its queue. -/
def leave (obj : ℕ) (forceRemove : Bool) : Timeline :=
  let side := (cfg.unit obj).side
  match s.sideLeft.get side with
  | none => s.fail .nilValue
  | some n =>
    { s with
      sideLeft := s.sideLeft.set side (n - 1)
      deadList := if forceRemove then s.deadList else s.deadList.insert obj }.push [.callback]

/-- `obj.lock = false; obj.timeline = nil`. -/
def unlist (obj : ℕ) : Timeline :=
  { s with lock := update s.lock obj false, timeline := update s.timeline obj false }

def takeCurrent (obj : ℕ) : Timeline :=
  { s with currentQueue := s.sort cfg (s.currentQueue.remove obj) }.note (.removed obj)

def takeWaiting (obj : ℕ) : Timeline := { s with waitStack := s.waitStack.remove obj }.note (.removed obj)

def takeNext (obj : ℕ) : Timeline :=
  { s with nextQueue := s.sort cfg (s.nextQueue.remove obj) }.note (.removed obj)

/-- `Remove`; `UNIT_DEAD_SYNC` and `API_RemoveMonster` call it. -/
def remove (obj : ℕ) (forceRemove : Bool) : Timeline :=
  let s := s.unlist obj
  if s.currentQueue.find obj then (s.takeCurrent cfg obj).leave cfg obj forceRemove
  else if s.waitStack.find obj then (s.takeWaiting obj).leave cfg obj forceRemove
  else if s.nextQueue.find obj then (s.takeNext cfg obj).leave cfg obj forceRemove
  else s.fail .notInTimeline

/-! ## Winner, rounds and waves -/

def checkRoundLimit : Except TimelineError (Option ℕ) :=
  if cfg.failedRoundLimit.any fun limit => decide (0 < limit ∧ limit < s.totalRound) then .ok (some 2)
  else if cfg.winRoundLimit.any fun limit => decide (0 < limit ∧ limit ≤ s.totalRound) then
    match s.sideLeft.get 1 with
    | none => .error .nilValue
    | some n => .ok (if n > 0 then some 1 else none)
  else .ok none

def getWinner : Except TimelineError (Option ℕ) :=
  if s.forceWinner.isSome then .ok s.forceWinner
  else if s.winner.isSome then .ok s.winner
  else do
    match ← s.checkRoundLimit cfg with
    | some winner => return some winner
    | none =>
      match s.sideLeft.ipairs.filter fun p => decide (p.2 > 0) with
      | [] => return some 0
      | [p] => return some p.1
      | _ => return none

def checkWinner : Timeline :=
  match s.getWinner cfg with
  | .error e => s.fail e
  | .ok none => s
  | .ok (some winner) =>
    if s.winner = some winner then s
    else
      let s := { s with winner := some winner }
      let rest := [.finishRound, .finisheWave, .callNextWave]
      match s.nextObj with
      | some obj => if (s.objectTick obj).isSome then s.unitFinished cfg obj rest else s.push rest
      | none => s.push rest

def nextRound : Timeline :=
  let m := TimelineArray.moveAll s.nextQueue.array.length s.nextQueue s.currentQueue s.lock
  let m' := TimelineArray.moveAll s.waitStack.array.length s.waitStack m.2.1 m.2.2
  let s := { s with nextQueue := m.1, waitStack := m'.1, currentQueue := m'.2.1, lock := m'.2.2 }
  let s := { s with
    currentQueue := s.sort cfg s.currentQueue
    objectTick := fun _ => none
    round := s.round + 1
    totalRound := s.totalRound + 1 }
  ((s.bump .beforeRound).note (.beforeRound s.currentQueue.array)).push [.callback]

def finishRound : Timeline := if s.round > 0 then s.push [.callback, .finishRoundEnd] else s

def finishRoundEnd : Timeline :=
  if s.totalRound * 1000 > s.tick then { s with tick := s.totalRound * 1000 }.note .roundEnd else s.fail .roundTick

def deadLeft : List ℕ := s.deadList.filter fun obj => (cfg.unit obj).side == 1

def finisheWave : Timeline :=
  if s.wave > 0 then { s with deadList := s.deadLeft cfg } else s

def finished : Timeline :=
  if s.lastFinishedWave ≠ some s.wave ∧ s.wave > 0 then (s.bump .finished).push [.callback, .finishedEnd] else s

def currentWave : ℕ := if (s.waves.get s.wave).isSome then s.wave else s.wave + 1

/-- `NextWave` up to the adding of the new objects, past the check of the round limit. -/
def enterWave : Timeline :=
  let currentWave := s.currentWave
  let addList := (s.waves.get currentWave).getD []
  let m := TimelineArray.moveAll s.currentQueue.array.length s.currentQueue s.nextQueue s.lock
  let m' := TimelineArray.moveAll s.waitStack.array.length s.waitStack m.2.1 m.2.2
  let s := { s with currentQueue := m.1, waitStack := m'.1, nextQueue := m'.2.1, lock := m'.2.2 }
  let s := { s with
    nextQueue := s.sort cfg s.nextQueue
    deadList := s.deadLeft cfg
    round := 0
    waves := s.waves.unset currentWave }
  (s.note .nextWave).push
    (addList.flatMap (fun obj => [.add obj s.wave, .resetWinner]) ++ [.checkWinner, .waveAdded currentWave])

def nextWave : Timeline :=
  match if s.winner.isSome then .ok none else s.checkRoundLimit cfg with
  | .error e => s.fail e
  | .ok (some _) => s.push [.finished]
  | .ok none => s.enterWave cfg

def waveAdded (currentWave : ℕ) : Timeline :=
  if s.winner.isSome then s.push [.finished]
  else if s.wave > 0 then { s with wave := currentWave }.bump .wave
  else { s with wave := currentWave }

/-! ## `Tick` -/

def tickStart (renew ready : Bool) : Timeline :=
  if s.running then s
  else if s.finishedInTick then { s with finishedInTick := false }
  else
    match s.nextTickAction with
    | _ :: actions => { s with nextTickAction := actions, currentRunningObj := none }.bump .endAction
    | [] =>
      if s.callNextWaveOnNextTick then { s with callNextWaveOnNextTick := false }.push [.nextWave, .ret]
      else s.push [.checkWinner, .tickRest renew ready, .ret]

def turn (obj : ℕ) (renew ready : Bool) : Timeline :=
  match s.objectTick obj with
  | none =>
    if renew then
      let s := { s with
        lock := update s.lock obj true
        objectTick := update s.objectTick obj (some 0) }
      (s.note (.turn obj)).push [.callback, .beforeActionEnd]
    else s
  | some _ =>
    let s := if s.currentRunningObj ≠ some obj then { s with currentRunningObj := some obj }.bump .prepareAction else s
    (s.note (.turn obj)).push [.callback, .prepared obj ready]

def tickRest (renew ready : Bool) : Timeline :=
  if s.winner.isSome then
    match s.nextObj with
    | some obj => if (s.objectTick obj).isSome then s.unitFinished cfg obj [.callNextWave] else s.push [.callNextWave]
    | none => s.push [.callNextWave]
  else if s.callNextRoundOnNextTick then { s with callNextRoundOnNextTick := false }.nextRound cfg
  else
    match s.nextObj with
    | none => (s.note .noObject).push [.finishRound, .callNextRound]
    | some obj => s.turn obj renew ready

def prepared (obj : ℕ) (ready : Bool) : Timeline :=
  if ready then
    let s := { s with currentRunningObjPrepared := false }.bump .readyAction
    match s.objectTick obj with
    | none => s.fail .nilValue
    | some n =>
      let s := { s with objectTick := update s.objectTick obj (some (n + 1)) }
      if n + 1 > 200 then s.push [.finished, .tooMuchAction]
      else if s.callObjActionNextTick then
        let s := { s with callObjActionNextTick := false, running := true, acting := obj :: s.acting }
        (s.note (.action obj)).push [.callback]
      else { s with callObjActionNextTick := true }.bump .startAction
  else { s with currentRunningObjPrepared := true }

def exec : TimelineInstr → Timeline
  | .callback => s
  | .ret => s
  | .add obj wave => s.add cfg obj wave
  | .resetWinner => { s with winner := none }
  | .unitFinishedEnd => { s with finishedInTick := true }.bump .objFinished
  | .tickRest renew ready => s.tickRest cfg renew ready
  | .beforeActionEnd => s.bump .beforeAction
  | .prepared obj ready => s.prepared obj ready
  | .checkWinner => s.checkWinner cfg
  | .finishRound => s.finishRound
  | .finishRoundEnd => s.finishRoundEnd
  | .finisheWave => s.finisheWave cfg
  | .callNextRound => { s with callNextRoundOnNextTick := true }
  | .callNextWave => { s with callNextWaveOnNextTick := true }
  | .nextWave => s.nextWave cfg
  | .waveAdded currentWave => s.waveAdded currentWave
  | .finished => s.finished
  | .finishedEnd => { s with lastFinishedWave := some s.wave }
  | .tooMuchAction => s.fail .tooMuchAction

end Timeline

/-! ## Runs -/

inductive TimelineCall
  | add (obj : ℕ) (wave : Option ℕ)
  | assist (obj : ℕ)
  | summon (id pos : ℕ) (remove : Bool) (visit : List ℕ)
  | remove (obj : ℕ) (forceRemove : Bool)
  | setForceWinner (winner : ℕ)
  | setSpeed (obj : ℕ) (speed : ℤ)
  | setPos (obj pos : ℕ)
  | unitSpeedChange (obj : ℕ)
  | unitRelive (obj : ℕ)
  | unitWait (obj : ℕ)
  | unitFinished
  /-- The script of an object that entered ends. -/
  | enterDone
  /-- `Action` returns, and `finished` says whether it has raised `UNIT_FINISHED`. -/
  | actionDone (obj : ℕ) (finished : Bool)
  | tick (renew ready : Bool)

namespace Timeline

/-- Nothing to do, or in a callback. -/
def outside (s : Timeline) : Bool :=
  match s.todo with
  | [] => true
  | .callback :: _ => true
  | _ :: _ => false

def mayCall (s : Timeline) : TimelineCall → Bool
  | .tick _ _ => s.todo.isEmpty && s.acting.isEmpty && s.events.isEmpty
  | .unitSpeedChange _ | .unitRelive _ | .unitWait _ | .unitFinished => s.todo.isEmpty
  | .enterDone => s.outside && decide (0 < s.enterScriptCount)
  | .actionDone obj _ => s.outside && decide (obj ∈ s.acting)
  | _ => s.outside

def call (cfg : TimelineConfig) (s : Timeline) : TimelineCall → Timeline
  | .add obj wave => s.push [.add obj (wave.getD (s.wave + 1)), .ret]
  | .assist obj =>
    { s with assitObjects := update s.assitObjects (cfg.unit obj).side (some obj) }.push
      [.add obj (s.wave + 1), .ret]
  | .summon id pos remove visit => s.summon cfg id pos remove visit
  | .remove obj forceRemove => (s.push [.ret]).remove cfg obj forceRemove
  | .setForceWinner winner => { s with forceWinner := some winner }
  | .setSpeed obj speed => { s with speed := update s.speed obj speed }
  | .setPos obj pos => { s with pos := update s.pos obj pos }
  | .unitSpeedChange obj => s.unitSpeedChange cfg obj
  | .unitRelive obj => s.unitRelive obj
  | .unitWait obj => s.unitWait cfg obj
  | .unitFinished => s.deliver cfg
  | .enterDone =>
    { s with
      enterScriptCount := s.enterScriptCount - 1
      running := s.running && decide (0 < s.enterScriptCount - 1) }
  | .actionDone obj finished =>
    { s with
      acting := s.acting.erase obj
      events := if finished then s.events ++ [obj] else s.events
      nextTickAction := s.nextTickAction ++ [obj]
      running := false }
  | .tick renew ready => s.tickStart renew ready

end Timeline

inductive TimelineAct
  | call (c : TimelineCall)
  | next

def timelineStep (cfg : TimelineConfig) (s : Timeline) : TimelineAct → Except Fault Timeline
  | .call c => .ok (if s.mayCall c then s.call cfg c else s)
  | .next =>
    match s.todo with
    | [] => .ok s
    | i :: is => .ok ({ s with todo := is }.exec cfg i)

theorem timelineStep_cases {cfg : TimelineConfig} {s s' : Timeline} {act : TimelineAct}
    (hstep : timelineStep cfg s act = .ok s') : s' = s ∨ (∃ c, act = .call c ∧ s' = s.call cfg c) ∨
      ∃ i is, act = .next ∧ s.todo = i :: is ∧ s' = { s with todo := is }.exec cfg i := by
  cases act with
  | call c =>
    obtain rfl := Except.ok.inj hstep
    split
    · exact .inr (.inl ⟨c, rfl, rfl⟩)
    · exact .inl rfl
  | next =>
    unfold timelineStep at hstep
    simp only at hstep
    split at hstep
    · exact .inl (Except.ok.inj hstep).symm
    · rename_i i is htodo
      exact .inr (.inr ⟨i, is, rfl, htodo, (Except.ok.inj hstep).symm⟩)

end CServer.Fight
