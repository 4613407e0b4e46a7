import CServer.Lib.Memory
import CServer.Lib.Exec

/-! # Sessions of the gateway

A connection is authenticated by a request to the authentication server and is then bound to the client record of a
player, until it closes, another connection of the player takes over, or the world ends the session. The client
table is that of `client.c`, the waiting list of `auth.c`; the pending requests are in `authserver.c`.
-/
namespace CServer.Gateway
open CServer.Lib Function

inductive ConnHandler
  | authenticating
  | authserver (sn : ℕ)
  | translating (client : ℕ)
  deriving DecidableEq

structure GatewayConn where
  closing : Bool
  handler : ConnHandler
  deriving DecidableEq

structure WaitingClient where
  addr : ℕ
  conn : ℕ
  startTime : ℕ

/-- `RPC_DATA`; `conn` is `none` for `INVALID_ID`. -/
structure Rpc where
  sn : ℕ
  conn : Option ℕ
  createTime : ℕ

/-- `logouts` is not in the source: the logout requests that have gone to the world in this session. -/
structure ClientRecord where
  conn : ℕ
  playerid : ℕ
  logouts : ℕ

inductive Ending
  | closed
  | takenOver
  | world
  deriving DecidableEq

structure EndedSession where
  playerid : ℕ
  how : Ending
  logouts : ℕ

/-- `clients` is the memory of the client records; `malloc` is an address that has not been used. `ended` is not in the
source. -/
structure Sessions where
  conns : ℕ → Option GatewayConn
  clients : ℕ → Option ClientRecord
  clientHash : ℕ → Option ℕ
  clientCount : ℕ
  wqueue : List WaitingClient
  wmap : ℕ → Option ℕ
  rpcs : List Rpc
  sn : ℕ
  malloc : ℕ
  ended : List EndedSession

/-- What becomes of a message for the world of a client: it is sent, it is lost since the world is not connected, or no
world is found. -/
inductive ToWorld
  | sent
  | lost
  | noWorld
  deriving DecidableEq

inductive AuthMessage
  | text
  | refused
  | login (sent : Bool)

def AuthMessage.closes : AuthMessage → Bool
  | .refused => true
  | .login sent => !sent
  | .text => false

/-- What a message is to a translating connection; `logout` is whether it is the client's own `C_LOGOUT_REQUEST`. -/
inductive ClientMessage
  | incomplete
  | malformed
  | unknownFlag (world : ToWorld)
  | toBackend
  | toWorld (logout : Bool) (world : ToWorld)

def ClientMessage.isUnknownFlag : ClientMessage → Bool
  | .unknownFlag _ => true
  | _ => false

def ClientMessage.findsNoWorld : ClientMessage → Bool
  | .unknownFlag .noWorld => true
  | .toWorld _ .noWorld => true
  | _ => false

inductive AuthResult
  | fail
  | noAccount
  | pass (pid : ℕ) (first : ClientMessage)

/-- What the world sends to a player: a login response other than success and "no character", the logout response,
or anything else. -/
inductive WorldAnswer
  | loginFailed
  | logout
  | other
  deriving DecidableEq

namespace Sessions

def init : Sessions := ⟨fun _ => none, fun _ => none, fun _ => none, 0, [], fun _ => none, [], 0, 0, []⟩

def leaving (how : Ending) (conn : ℕ) (s : Sessions) : List EndedSession :=
  match s.conns conn with
  | some ⟨false, .translating a⟩ =>
    match s.clients a with
    | some c => [⟨c.playerid, how, c.logouts⟩]
    | none => []
  | _ => []

def leave (how : Ending) (conn : ℕ) (s : Sessions) : Sessions := { s with ended := s.leaving how conn ++ s.ended }

/-- `agN_close` changes nothing for a connection that is closing, or gone. -/
def agNClose (how : Ending) (conn : ℕ) (s : Sessions) : Sessions :=
  { s.leave how conn with conns := update s.conns conn ((s.conns conn).map fun c => { c with closing := true }) }

def agNSetHandler (conn : ℕ) (h : ConnHandler) (s : Sessions) : Sessions :=
  { s with conns := update s.conns conn ((s.conns conn).map fun c => { c with handler := h }) }

/-! ## The waiting list -/

def expired (now : ℕ) (w : WaitingClient) : Bool := decide (w.startTime + 10 < now)

def dropWaiting (w : WaitingClient) (rest : List WaitingClient) (s : Sessions) : Sessions :=
  agNClose .closed w.conn { s with wqueue := rest, wmap := update s.wmap w.conn none }

def cleanLoop (now : ℕ) : List WaitingClient → Sessions → Sessions
  | [], s => s
  | w :: rest, s => if expired now w then cleanLoop now rest (s.dropWaiting w rest) else s

def cleanWaitingClient (now : ℕ) (s : Sessions) : Sessions := cleanLoop now s.wqueue s

variable (now conn : ℕ)

def newWaitingClient (s : Sessions) : Sessions :=
  let s := s.cleanWaitingClient now
  { s with
    wqueue := s.wqueue ++ [⟨s.malloc, conn, now⟩]
    wmap := update s.wmap conn (some s.malloc)
    malloc := s.malloc + 1 }

def removeWaiting (conn : ℕ) (s : Sessions) : Sessions :=
  { s with
    wqueue := s.wqueue.filter fun w => s.wmap conn ≠ some w.addr
    wmap := update s.wmap conn none }

def startAuth (how : Ending) (now conn : ℕ) (s : Sessions) : Sessions :=
  ((s.newWaitingClient now conn).leave how conn).agNSetHandler conn .authenticating

/-! ## The client table -/

/-- The address of the new record; `none` is the null pointer for the 10000th client. -/
def clientNew (conn pid : ℕ) (s : Sessions) : Option (ℕ × Sessions) :=
  if s.clientCount < 10000 then
    some (s.malloc, { s with
      clients := update s.clients s.malloc (some ⟨conn, pid, 0⟩)
      clientHash := update s.clientHash pid (some s.malloc)
      clientCount := s.clientCount + 1
      malloc := s.malloc + 1 })
  else none

def clientFree (a : ℕ) (c : ClientRecord) (s : Sessions) : Sessions :=
  { s with
    clients := update s.clients a none
    clientHash := update s.clientHash c.playerid none
    clientCount := s.clientCount - 1 }

def client (a : ℕ) (s : Sessions) : Except Fault ClientRecord :=
  match s.clients a with
  | some c => .ok c
  | none => .error .outOfBounds

def logoutSent (a : ℕ) (c : ClientRecord) (s : Sessions) : Sessions :=
  { s with clients := update s.clients a (some { c with logouts := c.logouts + 1 }) }

/-! ## `translate.c` -/

def sendLogout (now : ℕ) (world : ToWorld) (a : ℕ) (s : Sessions) : Except Fault Sessions := do
  let c ← s.client a
  match world with
  | .noWorld => return s.agNClose .closed c.conn
  | .sent => return ((s.logoutSent a c).startAuth .closed now c.conn).clientFree a c
  | .lost => return (s.startAuth .closed now c.conn).clientFree a c

def translateMessage (now conn a : ℕ) (m : ClientMessage) (s : Sessions) : Except Fault Sessions := do
  let c ← s.client a
  Lib.assert (decide (c.conn = conn))
  match m with
  | .incomplete => return s
  | .malformed => return (s.agNClose .closed c.conn).clientFree a c
  | .unknownFlag world =>
    let s ← s.sendLogout now world a
    return s.agNClose .closed conn
  | .toBackend => return s
  | .toWorld _ .noWorld => return s.agNClose .closed conn
  | .toWorld true .sent => return s.logoutSent a c
  | .toWorld _ _ => return s

def translateClosed (world : ToWorld) (a : ℕ) (s : Sessions) : Except Fault Sessions := do
  let c ← s.client a
  if conn = c.conn then s.sendLogout now world a else return s

/-! ## `authserver.c` -/

def rpc (sn : ℕ) (s : Sessions) : Option Rpc := s.rpcs.find? (·.sn = sn)

def removeRpc (sn : ℕ) (s : Sessions) : Sessions := { s with rpcs := s.rpcs.filter (·.sn ≠ sn) }

def newRpc (s : Sessions) : Sessions :=
  { s with sn := s.sn + 1, rpcs := s.rpcs ++ [⟨s.sn + 1, some conn, now⟩] }

/-- `authserver_auth`; `sent` is whether the authentication server is connected. -/
def authserverAuth (sent : Bool) (s : Sessions) : Sessions :=
  let s := (s.newRpc now conn).agNSetHandler conn (.authserver (s.sn + 1))
  if sent then s else s.agNClose .closed conn

def authMessage (m : AuthMessage) (s : Sessions) : Sessions :=
  match m with
  | .text => s
  | .refused => s.agNClose .closed conn
  | .login sent => s.authserverAuth now conn sent

def onClosedClient (sn : ℕ) (s : Sessions) : Except Fault Sessions :=
  match s.rpc sn with
  | none => .error .outOfBounds
  | some _ => .ok { s with rpcs := s.rpcs.map fun r => if r.sn = sn then { r with conn := none } else r }

def failAndClose (conn : Option ℕ) (s : Sessions) : Sessions :=
  match conn with
  | none => s
  | some conn => s.agNClose .closed conn

def takeClient (now conn pid : ℕ) (s : Sessions) : Except Fault (ℕ × Sessions) :=
  match s.clientHash pid with
  | none =>
    match s.clientNew conn pid with
    | none => .error .outOfBounds
    | some r => .ok r
  | some a => do
    let c ← s.client a
    return (a, if c.conn ≠ conn then s.startAuth .takenOver now c.conn else s)

/-- `c->conn = conn`, `remove_waiting` and the handler that `start_translate` sets. -/
def bind (conn a : ℕ) (c : ClientRecord) (s : Sessions) : Sessions :=
  let s := { s with clients := update s.clients a (some { c with conn := conn, logouts := 0 }) }
  (s.removeWaiting conn).agNSetHandler conn (.translating a)

def afterAuth (now conn pid : ℕ) (first : ClientMessage) (s : Sessions) : Except Fault Sessions := do
  let (a, s) ← s.takeClient now conn pid
  let c ← s.client a
  (s.bind conn a c).translateMessage now conn a first

def authRespond (now sn : ℕ) (result : AuthResult) (s : Sessions) : Except Fault Sessions :=
  match s.rpc sn with
  | none => .ok s
  | some r =>
    match result, r.conn with
    | .fail, conn => .ok ((s.failAndClose conn).removeRpc sn)
    | _, none => .ok (s.removeRpc sn)
    | .noAccount, some conn => .ok ((s.agNClose .closed conn).removeRpc sn)
    | .pass pid first, some conn => do
      let s ← s.afterAuth now conn pid first
      return s.removeRpc sn

def timedOut (now : ℕ) (r : Rpc) : Bool := decide (r.createTime + 5 ≤ now)

def timeoutLoop (now : ℕ) : List Rpc → Sessions → Sessions
  | [], s => s
  | r :: rest, s =>
    if timedOut now r then timeoutLoop now rest ((s.removeRpc r.sn).failAndClose r.conn) else s

def authserverUpdate (now : ℕ) (s : Sessions) : Sessions := timeoutLoop now s.rpcs s

def translateToClient (now pid : ℕ) (answer : WorldAnswer) (s : Sessions) : Except Fault Sessions :=
  match s.clientHash pid with
  | none => .ok s
  | some a => do
    let c ← s.client a
    match answer with
    | .loginFailed => return s.startAuth .world now c.conn
    | .logout => return (s.agNClose .world c.conn).clientFree a c
    | .other => return s

end Sessions

/-! ## Events -/

inductive GatewayEvent
  | accept (conn : ℕ)
  /-- A message, as the one or the other handler sees it. -/
  | message (conn : ℕ) (auth : AuthMessage) (client : ClientMessage)
  /-- The peer has closed the connection, or there is an error on the socket. -/
  | closed (conn : ℕ) (world : ToWorld)
  | authRespond (sn : ℕ) (result : AuthResult)
  | authserverUpdate
  | world (pid : ℕ) (answer : WorldAnswer)
  | cleanClient

namespace Sessions

/-- Nothing is read from a connection that is closing. -/
def onMessage (now conn : ℕ) (auth : AuthMessage) (client : ClientMessage) (s : Sessions) : Except Fault Sessions :=
  match s.conns conn with
  | some ⟨false, .authenticating⟩ => .ok (s.authMessage now conn auth)
  | some ⟨false, .translating a⟩ => s.translateMessage now conn a client
  | _ => .ok s

def onClosed (now conn : ℕ) (world : ToWorld) (s : Sessions) : Except Fault Sessions :=
  match s.conns conn with
  | some ⟨false, .authenticating⟩ => .ok (s.agNClose .closed conn)
  | some ⟨false, .authserver sn⟩ => do
    let s ← s.onClosedClient sn
    return s.agNClose .closed conn
  | some ⟨false, .translating a⟩ => do
    let s ← s.translateClosed now conn world a
    return s.agNClose .closed conn
  | _ => .ok s

def accept (now conn : ℕ) (s : Sessions) : Sessions :=
  match s.conns conn with
  | none =>
    startAuth .closed now conn { s with conns := update s.conns conn (some ⟨false, .authenticating⟩) }
  | some _ => s

def cleanClient (s : Sessions) : Sessions :=
  { s with conns := fun conn => (s.conns conn).filter fun c => !c.closing }

def step (s : Sessions) (e : ℕ × GatewayEvent) : Except Fault Sessions :=
  match e.2 with
  | .accept conn => .ok (s.accept e.1 conn)
  | .message conn auth client => s.onMessage e.1 conn auth client
  | .closed conn world => s.onClosed e.1 conn world
  | .authRespond sn result => s.authRespond e.1 sn result
  | .authserverUpdate => .ok (s.authserverUpdate e.1)
  | .world pid answer => s.translateToClient e.1 pid answer
  | .cleanClient => .ok s.cleanClient

/-! ## Records, connections, and those who wait -/

def translating (s : Sessions) (conn : ℕ) : Option ℕ :=
  match s.conns conn with
  | some ⟨false, .translating a⟩ => some a
  | _ => none

def isAuthenticating (s : Sessions) (conn : ℕ) : Bool :=
  match s.conns conn with
  | some ⟨false, .authenticating⟩ => true
  | some ⟨false, .authserver _⟩ => true
  | _ => false

/-- Distinct records have distinct connections, the connection of a record is live, translates and is bound to it, and
the table finds of a player the record of that player. -/
structure Bound (s : Sessions) : Prop where
  distinct : ∀ a b c d, s.clients a = some c → s.clients b = some d → c.conn = d.conn → a = b
  live : ∀ a c, s.clients a = some c → s.translating c.conn = some a
  back : ∀ conn a, s.translating conn = some a → ∃ c, s.clients a = some c ∧ c.conn = conn
  hash : ∀ pid a, s.clientHash pid = some a ↔ ∃ c, s.clients a = some c ∧ c.playerid = pid

/-- The waiting list and its map hold the connections that authenticate, once each, and no other. -/
structure WaitingExact (s : Sessions) : Prop where
  map : ∀ conn, s.isAuthenticating conn = true ↔ ∃ a, s.wmap conn = some a
  queue : ∀ conn a, s.wmap conn = some a ↔ ∃ w ∈ s.wqueue, w.addr = a ∧ w.conn = conn
  once : (s.wqueue.map (·.conn)).Nodup

end Sessions
end CServer.Gateway
