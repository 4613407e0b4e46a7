import CServer.Lib.Memory
import CServer.Lib.Exec

/-! # `fight/utils/EventManager.lua`: the events of a battle

A listener may call the manager again before it returns, so a delivery stops at every listener: `go`
is one round of the loop in progress, `ret` the return of the listener in progress, also where it ends in
an error that `xpcall` catches. Lists are objects: the loop over a list goes on with the one it began
with when `watcher` already holds another. No coroutine waits in `cos`.

`log` records what was asked of the manager and what it did. -/
namespace CServer.Fight
open CServer.Lib Function

inductive EventName
  | all
  | named (name : ℕ)
  deriving DecidableEq

structure Message where
  event : EventName
  args : ℕ
  deriving DecidableEq

/-- An entry of a list; `id` tells apart the entries of one callback. -/
structure Listener where
  id : ℕ
  ptr : ℕ
  deriving DecidableEq

inductive EventNote
  | added (key : EventName) (cb : Listener)
  | removed (key : EventName) (ptr : ℕ)
  | queued (m : Message)
  | taken (m : Message)
  | ticked
  | began (m : Message)
  | called (cb : Listener)
  | finished
  deriving DecidableEq

/-- The locals of an `EventManager_CallList`; `second` is that of `'*'`, and `running` says that the
listener at `i` has been called and not returned. -/
structure CallList where
  msg : Message
  second : Bool
  list : ℕ
  n : ℕ
  i : ℕ := 0
  nlist : List Listener := []
  running : Bool := false
  deriving DecidableEq

def CallList.key (c : CallList) : EventName := if c.second then .all else c.msg.event

inductive EventFrame
  | callList (c : CallList)
  | tick (list i : ℕ)
  deriving DecidableEq

/-- `watcher` and `list` hold objects, `lists` and `queues` are what these contain; a removed listener
leaves `none` in its list. -/
structure EventManager where
  lists : ℕ → List (Option Listener) := fun _ => []
  watcher : EventName → Option ℕ := fun _ => none
  nextList : ℕ := 0
  queues : ℕ → List Message := fun _ => []
  list : ℕ := 0
  nextQueue : ℕ := 1
  nextListener : ℕ := 0
  frames : List EventFrame := []
  log : List EventNote := []

namespace EventManager
variable (s : EventManager)

def note (e : EventNote) : EventManager := { s with log := s.log ++ [e] }

/-! ## Listeners and the queue -/

def dispatch (m : Message) : EventManager :=
  if (s.watcher m.event).isSome || (s.watcher .all).isSome then
    { s with queues := update s.queues s.list (s.queues s.list ++ [m]), log := s.log ++ [.queued m] }
  else s

def watch (key : EventName) (ptr : ℕ) : EventManager :=
  let cb : Listener := ⟨s.nextListener, ptr⟩
  match s.watcher key with
  | some p => { s with
      lists := update s.lists p (s.lists p ++ [some cb])
      nextListener := s.nextListener + 1
      log := s.log ++ [.added key cb] }
  | none => { s with
      lists := update s.lists s.nextList [some cb]
      watcher := update s.watcher key (some s.nextList)
      nextList := s.nextList + 1
      nextListener := s.nextListener + 1
      log := s.log ++ [.added key cb] }

def clear (ptr : ℕ) : List (Option Listener) → List (Option Listener)
  | [] => []
  | none :: list => none :: clear ptr list
  | some cb :: list => if cb.ptr = ptr then none :: list else some cb :: clear ptr list

def unwatch (key : EventName) (ptr : ℕ) : EventManager :=
  let s := s.note (.removed key ptr)
  match s.watcher key with
  | some p => { s with lists := update s.lists p (clear ptr (s.lists p)) }
  | none => s

/-! ## Calling the listeners -/

def push (f : EventFrame) : EventManager := { s with frames := f :: s.frames }

/-- `manager.watcher[key] = nlist`, where an empty one was returned as `nil`. -/
def store (key : EventName) : List Listener → EventManager
  | [] => { s with watcher := update s.watcher key none }
  | nlist@(_ :: _) => { s with
      lists := update s.lists s.nextList (nlist.map some)
      watcher := update s.watcher key (some s.nextList)
      nextList := s.nextList + 1 }

def callStar (m : Message) : EventManager :=
  match s.watcher .all with
  | none => s.note .finished
  | some p => s.push (.callList { msg := m, second := true, list := p, n := (s.lists p).length })

/-- `EventManager_Call`, up to the loop over the listeners. -/
def call (m : Message) : EventManager :=
  let s := s.note (.began m)
  match s.watcher m.event with
  | none => s.callStar m
  | some p => s.push (.callList { msg := m, second := false, list := p, n := (s.lists p).length })

/-- One round of the loop of `EventManager_CallList`, and what follows its end. -/
def callListRound (c : CallList) (rest : List EventFrame) : EventManager :=
  if c.i < c.n then
    match (s.lists c.list)[c.i]? with
    | some (some cb) =>
      { s with frames := .callList { c with running := true } :: rest, log := s.log ++ [.called cb] }
    | _ => { s with frames := .callList { c with i := c.i + 1 } :: rest }
  else
    let s := store { s with frames := rest } c.key c.nlist
    if c.second then s.note .finished else s.callStar c.msg

/-- One round of the loop of `EventManager_Tick`, and what follows its end. -/
def tickRound (list i : ℕ) (rest : List EventFrame) : EventManager :=
  match (s.queues list)[i]? with
  | some m => call { s with frames := .tick list (i + 1) :: rest, log := s.log ++ [.taken m] } m
  | none => { s with
      frames := rest
      list := s.nextQueue
      queues := update s.queues s.nextQueue []
      nextQueue := s.nextQueue + 1
      log := s.log ++ [.ticked] }

def go : EventManager :=
  match s.frames with
  | [] => s
  | .callList c :: rest => if c.running then s else s.callListRound c rest
  | .tick list i :: rest => s.tickRound list i rest

/-- The listener in progress returns; it goes to the new list unless it has been removed. -/
def ret : EventManager :=
  match s.frames with
  | .callList c :: rest =>
    if c.running then
      let nlist :=
        match (s.lists c.list)[c.i]? with
        | some (some cb) => c.nlist ++ [cb]
        | _ => c.nlist
      { s with frames := .callList { c with i := c.i + 1, nlist := nlist, running := false } :: rest }
    else s
  | _ => s

/-! ## Steps -/

/-- Control is outside the manager: at the top or in a listener. -/
def outside : Bool :=
  match s.frames with
  | [] => true
  | .callList c :: _ => c.running
  | .tick _ _ :: _ => false

end EventManager

inductive EventManagerAct
  | dispatch (m : Message)
  | dispatchImmediately (m : Message)
  | addListener (key : EventName) (ptr : ℕ)
  | removeListener (key : EventName) (ptr : ℕ)
  | tick
  | go
  | ret

/-- The acts of whoever has control; the others change nothing. -/
def eventManagerStep (s : EventManager) : EventManagerAct → Except Fault EventManager
  | .dispatch m => .ok (if s.outside then s.dispatch m else s)
  | .dispatchImmediately m => .ok (if s.outside then s.call m else s)
  | .addListener key ptr => .ok (if s.outside then s.watch key ptr else s)
  | .removeListener key ptr => .ok (if s.outside then s.unwatch key ptr else s)
  | .tick => .ok (if s.outside then s.push (.tick s.list 0) else s)
  | .go => .ok s.go
  | .ret => .ok s.ret

end CServer.Fight
