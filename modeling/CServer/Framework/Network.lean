import CServer.Framework.Lrm
import CServer.Framework.Conn

/-! # `framework/network.c`: the connection table and its two lists

`active_list` and `closing_list` are threaded through the one `next` field of a connection. A
connection is its slot in the resource manager. Handlers run inside `_agN_tick` and call back into
the module, so the tick is cut into steps between which any call may happen: `NetAction` is one
call or one step of the running tick. `Trace`, not in the source, has the ids each function is about.
-/
namespace CServer.Framework
open CServer.Lib Function

structure Trace where
  opened : List ℕ
  closed : List ℕ
  freed : List ℕ
  activated : List ℕ
  visited : List ℕ

/-- `struct network`, without the epoll descriptor and the timers. -/
structure Network where
  lrm : Lrm
  conns : ℕ → Conn
  closingList : Option ℕ
  activeList : Option ℕ
  trace : Trace

def agNNew (max : ℕ) : Network := ⟨agRMNew max, fun _ => Conn.zero, none, none, ⟨[], [], [], [], []⟩⟩

variable (net : Network)

def Network.setConn (i : ℕ) (c : Conn) : Network :=
  { net with conns := update net.conns i c }

section SetConn

variable (net : Network) (i : ℕ) (c : Conn)

@[simp] theorem Network.setConn_self : (net.setConn i c).conns i = c := update_self ..

theorem Network.setConn_of_ne {j : ℕ} (h : j ≠ i) : (net.setConn i c).conns j = net.conns j :=
  update_of_ne h ..

@[simp] theorem Network.setConn_setConn (c' : Conn) : (net.setConn i c).setConn i c' = net.setConn i c' := by
  simp only [Network.setConn, update_idem]

@[simp] theorem Network.setConn_closingList : (net.setConn i c).closingList = net.closingList := rfl

@[simp] theorem Network.setConn_trace : (net.setConn i c).trace = net.trace := rfl

end SetConn

def Network.setEvent (ctl : Int) (i events : ℕ) : Network :=
  net.setConn i (connSetEvent ctl (net.conns i) events).2

/-! ## Closing -/

def agNClose (ctl : Int) (net : Network) (id : ℕ) : Network :=
  match agRGet net.lrm id with
  | none => net
  | some i =>
    if (net.conns i).status ≠ .closing then
      let net := net.setConn i { net.conns i with status := .closing }
      let net := net.setEvent ctl i 0
      let net := net.setConn i { net.conns i with next := net.closingList }
      { net with
        closingList := some i
        trace := { net.trace with closed := (net.conns i).id :: net.trace.closed } }
    else net

/-- `do_close`; the descriptor and the buffers are released. -/
def doClose (i : ℕ) : Network :=
  let net := net.setConn i { net.conns i with status := .closed }
  { net with
    lrm := agRFree net.lrm (net.conns i).id
    trace := { net.trace with freed := (net.conns i).id :: net.trace.freed } }

/-- The loop of `cleanClient`; a list of more than `max` links has a cycle. -/
def cleanLoop : ℕ → Network → Except Fault Network
  | 0, _ => .error .diverges
  | fuel + 1, net =>
    match net.closingList with
    | none => .ok net
    | some i => cleanLoop fuel (doClose { net with closingList := (net.conns i).next } i)

def cleanClient : Except Fault Network := do
  let net ← cleanLoop (net.lrm.max + 1) net
  return { net with closingList := none }

def agNDetach (ctl : Int) (net : Network) (id : ℕ) : Network :=
  match agRGet net.lrm id with
  | none => net
  | some i =>
    if (net.conns i).status = .closed ∨ (net.conns i).status = .closing then net
    else agNClose ctl (net.setConn i { net.conns i with fd := -1 }) id

/-! ## Activating -/

/-- The debug loop of `_network_active`: `while(n) { n = n->next; assert(n != head); }`. -/
def debugLoop (next : ℕ → Option ℕ) (head : Option ℕ) : ℕ → Option ℕ → Except Fault Unit
  | 0, _ => .error .diverges
  | _ + 1, none => .ok ()
  | fuel + 1, some n => do
    assert (decide (next n ≠ head))
    debugLoop next head fuel (next n)

def pushActive (i : ℕ) : Network :=
  { net.setConn i { net.conns i with next := net.activeList, inActiveList := true } with
    activeList := some i
    trace := { net.trace with activated := (net.conns i).id :: net.trace.activated } }

def networkActive (i : ℕ) : Except Fault Network := do
  let net :=
    if (net.conns i).next = none ∧ (net.conns i).inActiveList = false then pushActive net i else net
  debugLoop (fun j => (net.conns j).next) net.activeList (net.lrm.max + 1) net.activeList
  return net

def agNSetHandler (ctl : Int) (net : Network) (id : ℕ) : Except Fault Network :=
  match agRGet net.lrm id with
  | none => .ok net
  | some i => do
    let net ← networkActive net i
    let pending ← hasBytes (net.conns i).wbuf
    return net.setEvent ctl i (if pending then epollIn ||| epollOut else epollIn)

/-! ## Opening -/

/-- `_agR_new`, `_agR_get` and `memset`, with which every connection begins; the new slot, if there is
one. -/
def newConn : Except Fault (Option ℕ × Network) := do
  let (id, lrm) ← agRNew net.lrm
  let net := { net with lrm := lrm }
  if id = invalidId then return (none, net)
  match agRGet net.lrm id with
  | none => .error .outOfBounds
  | some i => return (some i, net.setConn i { Conn.zero with id := id })

def Network.opened (net : Network) (i : ℕ) : Network :=
  { net with trace := { net.trace with opened := (net.conns i).id :: net.trace.opened } }

/-- What `connect_to` does: it fails, connects at once, or the connection is in progress. -/
inductive ConnectTo
  | failed
  | done (fd : ℕ)
  | pending (fd : ℕ)

def agNConnect (res : ConnectTo) (ctl : Int) (net : Network) : Except Fault Network := do
  match ← newConn net with
  | (none, net) => return net
  | (some i, net) =>
    match res with
    | .failed =>
      let net := net.setConn i { net.conns i with fd := -1 }
      return { net with lrm := agRFree net.lrm (net.conns i).id }
    | .done fd =>
      networkActive ((net.setConn i { net.conns i with fd := fd, status := .connectedWaitCb }).opened i) i
    | .pending fd =>
      return ((net.setConn i { net.conns i with fd := fd, status := .connecting }).opened i).setEvent ctl i epollOut

/-- `_agN_listen`; `fd` is what `listen_on` returns, if it succeeds. -/
def agNListen (fd : Option ℕ) (ctl : Int) (net : Network) : Except Fault Network := do
  match ← newConn net with
  | (none, net) => return net
  | (some i, net) =>
    match fd with
    | none =>
      let net := net.setConn i { net.conns i with fd := -1 }
      return { net with lrm := agRFree net.lrm (net.conns i).id }
    | some fd =>
      return ((net.setConn i { net.conns i with fd := fd, status := .listening }).opened i).setEvent ctl i epollIn

def agNAttach (fd : ℕ) (ctl : Int) (net : Network) : Except Fault Network := do
  match ← newConn net with
  | (none, net) => return net
  | (some i, net) =>
    return ((net.setConn i { net.conns i with fd := fd, status := .connected }).opened i).setEvent ctl i epollIn

/-- `accept_once` up to the call of `on_accept`, when `accept` returned `fd`. -/
def acceptOnce (fd : ℕ) (net : Network) : Except Fault Network := do
  match ← newConn net with
  | (none, net) => return net
  | (some i, net) => return (net.setConn i { net.conns i with fd := fd, status := .connected }).opened i

def finishConnecting (ctl : Int) (net : Network) (i : ℕ) : Except Fault Network := do
  let net := net.setConn i { net.conns i with status := .connected }
  let pending ← hasBytes (net.conns i).wbuf
  return net.setEvent ctl i (if pending then epollIn ||| epollOut else epollIn)

/-! ## The tick -/

/-- Where `_agN_tick` is, and the connection it is busy with. -/
inductive Pc
  | outside
  | activeLoop (c : Option ℕ)
  | eventLoop (c : Option ℕ)
  deriving DecidableEq

def Pc.current : Pc → Option ℕ
  | .outside => none
  | .activeLoop c => c
  | .eventLoop c => c

structure NetState where
  net : Network
  pc : Pc

def takeActive (i : ℕ) : Network :=
  let net := { net with activeList := (net.conns i).next }
  let net := net.setConn i { net.conns i with next := none, inActiveList := false }
  { net with trace := { net.trace with visited := (net.conns i).id :: net.trace.visited } }

inductive NetAction
  | connect (res : ConnectTo) (ctl : Int)
  | listen (fd : Option ℕ) (ctl : Int)
  | attach (fd : ℕ) (ctl : Int)
  | setHandler (id : ℕ) (ctl : Int)
  | close (id : ℕ) (ctl : Int)
  | detach (id : ℕ) (ctl : Int)
  /-- Reading and writing: the buffers and the events of a connection change. -/
  | io (i : ℕ) (rbuf wbuf : Option { b : Buffer // b.Ok }) (events : ℕ)
  | tick
  /-- The head of the `while` of the active loop. -/
  | take
  /-- The next event is about the connection in slot `i`. -/
  | event (i : ℕ)
  /-- A turn of the `accept_once` loop, which looks at the status of the listener only once. -/
  | accept (fd : ℕ)
  | finish (ctl : Int)
  | clean
  | stop

/-- One action; a step of the tick that is not the next one does nothing. -/
def netStep (s : NetState) : NetAction → Except Fault NetState
  | .connect res ctl => do return { s with net := ← agNConnect res ctl s.net }
  | .listen fd ctl => do return { s with net := ← agNListen fd ctl s.net }
  | .attach fd ctl => do return { s with net := ← agNAttach fd ctl s.net }
  | .setHandler id ctl => do return { s with net := ← agNSetHandler ctl s.net id }
  | .close id ctl => .ok { s with net := agNClose ctl s.net id }
  | .detach id ctl => .ok { s with net := agNDetach ctl s.net id }
  | .io i rbuf wbuf events =>
    .ok { s with net := s.net.setConn i { s.net.conns i with
      rbuf := rbuf.map Subtype.val, wbuf := wbuf.map Subtype.val, events := events } }
  | .tick =>
    match s.pc with
    | .outside => .ok { s with pc := if s.net.activeList = none then .eventLoop none else .activeLoop none }
    | _ => .ok s
  | .take =>
    match s.pc with
    | .activeLoop _ =>
      match s.net.activeList with
      | none => .ok { s with pc := .outside }
      | some i => .ok ⟨takeActive s.net i, .activeLoop (some i)⟩
    | _ => .ok s
  | .event i =>
    match s.pc with
    | .eventLoop _ => .ok { s with pc := .eventLoop (some i) }
    | _ => .ok s
  | .accept fd =>
    match s.pc.current with
    | some _ => do return { s with net := ← acceptOnce fd s.net }
    | none => .ok s
  | .finish ctl =>
    match s.pc.current with
    | some i =>
      if (s.net.conns i).status = .connecting ∨
          (s.pc = .activeLoop (some i) ∧ (s.net.conns i).status = .connectedWaitCb) then do
        return { s with net := ← finishConnecting ctl s.net i }
      else .ok s
    | none => .ok s
  | .clean =>
    match s.pc with
    | .eventLoop _ => do return ⟨← cleanClient s.net, .outside⟩
    | _ => .ok s
  | .stop =>
    match s.pc with
    | .eventLoop _ => .ok { s with pc := .outside }
    | _ => .ok s

def netRun : NetState → List NetAction → Except Fault NetState := run netStep

end CServer.Framework
