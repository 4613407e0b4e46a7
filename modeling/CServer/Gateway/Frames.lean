import CServer.Framework.AmfRoundTrip
import CServer.Gateway.PlayerId

/-! # Frame handlers of the gateway

The connection layer hands a handler all the bytes it has received, and the handler takes the first frame: that of
a translating client, of an authenticating client, of a world, or of a backend. What a handler does is the list of
its effects; the rest of the gateway it reads (clients, accounts, worlds, backends, what `pbc` makes of a message)
is `GatewayEnv`.
-/
namespace CServer.Gateway
open CServer.Lib CServer.Framework CServer.World

/-! ## The rest of the gateway -/

/-- `struct client`; `conn` is `none` for `INVALID_ID`. -/
structure Client where
  conn : Option ℕ
  playerid : ℕ
  adult : ℕ
  vip : UInt32
  vip2 : UInt32
  world : ℕ

structure BroadcastRequest where
  sn : ℕ
  cmd : ℕ
  flag : ℕ
  msg : List UInt8
  pids : List ℕ

structure GatewayEnv where
  /-- Uninitialised locals of `amf_read`. -/
  stale : Stale
  /-- What `amf_get_integer` makes of a double. -/
  ofDouble : UInt64 → ℕ
  clients : ℕ → Option Client
  /-- `account_get_by_pid`: the name is a C string in 128 bytes. -/
  account : ℕ → Option (List UInt8)
  /-- The address `getpeername` finds for the connection. -/
  peerIp : List UInt8
  /-- `backend_get`: the id of the service that takes the command. -/
  backendGet : ℕ → Option ℕ
  backendAvailable : ℕ → Bool
  worldIsValid : ℕ → Bool
  worldGetIdleWorld : ℕ → ℕ
  version : ℕ
  serverId : ℕ
  authserverSends : Bool
  /-- `protocol_new_r("ServiceBroadcastRequest", ..)`. -/
  broadcastRequest : List UInt8 → Option BroadcastRequest
  broadcastRespond : ℕ → List UInt8

inductive Effect
  /-- The connection of the frame is closed, after a login response if there is one. -/
  | close
  | respondAndClose (sn result : ℕ)
  | closeClient (conn : ℕ)
  | clientFree (playerid : ℕ)
  | startAuth (conn : Option ℕ)
  | record (playerid : ℕ) (frame : List UInt8)
  | sendPolicy
  | authenticate (account token frame : List UInt8) (sn serverid : ℕ)
  | toBackend (backend channel cmd flag : ℕ) (msg : List UInt8)
  | toBackends (channel cmd flag : ℕ) (msg : List UInt8)
  | toWorld (world playerid cmd flag : ℕ) (msg : List UInt8)
  | toClient (conn : Option ℕ) (cmd flag : ℕ) (msg : List UInt8)
  | toClients (cmd flag : ℕ) (msg : List UInt8)
  /-- The bytes handed to `protocol_new_r`. -/
  | request (data : List UInt8)

/-- What a handler does and returns; `wrapped` is not in the source: a body length has been computed from an announced
length below the size of the header. -/
structure Handled where
  effects : List Effect
  ret : ℕ
  wrapped : Bool

abbrev Handling := Except Fault Handled

def Handled.closes (h : Handled) : Prop := ∃ e ∈ h.effects, match e with
  | .close => True
  | .respondAndClose _ _ => True
  | _ => False

def waits : Handling := .ok ⟨[], 0, false⟩

def handled (wrapped : Bool) (x : Except Fault (List Effect × ℕ)) : Handling :=
  match x with
  | .error e => .error e
  | .ok (effects, ret) => .ok ⟨effects, ret, wrapped⟩

/-! ## Headers and bodies -/

def clientHeaderSize : ℕ := 12

structure ClientHeader where
  len : ℕ
  flag : ℕ
  cmd : ℕ

def clientHeader (link : List UInt8) : ClientHeader := ⟨ntohl link 0, ntohl link 4, ntohl link 8⟩

/-- The announced length less the size of the header, as a `size_t`. -/
def bodyLen (header len : ℕ) : ℕ := (len + 2 ^ 64 - header) % 2 ^ 64

def body (header len : ℕ) (link : List UInt8) (beyond : Mem) : List UInt8 :=
  slice (linkMem link beyond) header (bodyLen header len)

def behindBody (header len : ℕ) (link : List UInt8) (beyond : Mem) : Mem :=
  fun i => linkMem link beyond (header + bodyLen header len + i)

def cLoginRespond : ℕ := 2
def cCreatePlayerRespond : ℕ := 8
def sServiceRegisterRespond : ℕ := 1005
def sServiceBroadcastRequest : ℕ := 1006
def sServiceBroadcastRespond : ℕ := 1007
def retSuccess : ℕ := 0
def retCharacterNotExist : ℕ := 3
def retPermission : ℕ := 11
def retServiceStatusError : ℕ := 14
def retVersionMissmatch : ℕ := 812
def invalidWorldId : ℕ := 2 ^ 32 - 1

/-! ## `amf.c`: looking into a value -/

def amfSize : AmfValue → ℕ
  | .array child => child.length
  | .string s => s.length
  | .byteArray s => s.length
  | _ => 0

def amfGet (v : AmfValue) (pos : ℕ) : Option AmfValue :=
  match v with
  | .array child => (child[pos]?).join
  | _ => none

def amfIsArray : AmfValue → Bool
  | .array _ => true
  | _ => false

def cString (s : List UInt8) : List UInt8 := s.takeWhile (· ≠ 0)

def amfGetString : Option AmfValue → Option (List UInt8)
  | some (.string s) => some (cString s)
  | some (.byteArray s) => some (cString s)
  | _ => none

variable (env : GatewayEnv)

def amfGetInteger : Option AmfValue → ℕ
  | some (.integer n) => n.toNat
  | some (.sinteger i) => (i.toInt % 2 ^ 32).toNat
  | some (.double d) => env.ofDouble d
  | some .true => 1
  | _ => 0

def ascii (s : String) : List UInt8 := s.toList.map fun c => UInt8.ofNat c.toNat

/-! ## `translate.c` -/

variable (c : Client)

def worldOf : ℕ :=
  if c.world = invalidWorldId ∨ env.worldIsValid c.world = false then env.worldGetIdleWorld c.playerid else c.world

/-- `world_send_message`: nothing is sent to a world that is not valid. -/
def sendToWorld (world playerid cmd flag : ℕ) (msg : List UInt8) : List Effect :=
  if env.worldIsValid world then [.toWorld world playerid cmd flag msg] else []

def logoutRequest : List UInt8 := wire (some (.array [some (.integer 0), some (.integer 1)]))

def sendLogout : List Effect :=
  if worldOf env c = invalidWorldId then [.close]
  else
    sendToWorld env (worldOf env c) c.playerid cLogoutRequest 1 logoutRequest ++
      [.toBackends c.playerid cLogoutRequest 1 logoutRequest, .startAuth c.conn, .clientFree c.playerid]

def proxyIp (v : AmfValue) : List UInt8 :=
  match amfGet v 4 with
  | some (.string s) =>
    let s := cString s
    if s.take 3 = ascii "ip:" then (s.drop 3).take 256 else []
  | _ => []

def accountName (pid : ℕ) : List UInt8 := (cString ((env.account pid).getD [])).take 127

def loginToken (ip : List UInt8) : List UInt8 :=
  (ascii (toString c.playerid) ++ ascii ":" ++ ascii (toString c.adult) ++ ascii ":" ++ ip).take 127

def loginRequest (account token : List UInt8) (vip vip2 : UInt32) : AmfValue :=
  .array [some (.integer 0), some (.string account), some (.string token), some (.integer vip), some (.integer vip2)]

def loginMessage (v : AmfValue) : List UInt8 :=
  let ip := if proxyIp v = [] then env.peerIp else proxyIp v
  wire (some (loginRequest (accountName env c.playerid) (loginToken c ip) c.vip c.vip2))

def serviceError (sn id : ℕ) : List UInt8 :=
  wire (some (.array [some (.integer (UInt32.ofNat sn)), some (.integer (UInt32.ofNat retServiceStatusError)),
    some (.integer (UInt32.ofNat id))]))

/-- `send_backend_message`; `none` if no backend takes the command. -/
def sendBackendMessage (cmd flag : ℕ) (msg : List UInt8) (behind : Mem) :
    Except Fault (Option (List Effect)) :=
  match env.backendGet cmd with
  | none => .ok none
  | some peer =>
    if env.backendAvailable peer then .ok (some [.toBackend peer c.playerid cmd flag msg])
    else do
      match ← amfRead env.stale behind msg with
      | none => return some [.close]
      | some (req, rlen) =>
        if rlen ≠ msg.length then return some [.close]
        let sn := if amfIsArray req ∧ 1 ≤ amfSize req then amfGetInteger env (amfGet req 0) else 0
        return some [.toClient c.conn ((cmd + 1) % 2 ^ 32) 1 (serviceError sn peer)]

/-- `process_message` of a translating client after the check of the message; a login request is sent from a buffer of
its own. -/
def forwardMessage (h : ClientHeader) (frame msg : List UInt8) (v : AmfValue) (behind : Mem) :
    Except Fault (List Effect × ℕ) :=
  if h.flag ≠ 1 ∧ h.flag ≠ 2 then .ok (sendLogout env c ++ [.close], 0)
  else do
    let login := h.cmd = cLoginRequest
    let sent := if login then loginMessage env c v else msg
    let behind : Mem := if login then fun _ => 0 else behind
    let flag := if login then 1 else h.flag
    match ← sendBackendMessage env c h.cmd flag sent behind with
    | some effects => return (.record c.playerid frame :: effects, h.len)
    | none =>
      if worldOf env c = invalidWorldId then return ([.record c.playerid frame, .close], 0)
      let logout := if h.cmd = cLogoutRequest then [Effect.toBackends c.playerid h.cmd flag sent] else []
      return (.record c.playerid frame :: sendToWorld env (worldOf env c) c.playerid h.cmd flag sent ++ logout, h.len)

/-- `process_message` of a translating client from the check of the message on. -/
def translateFrame (h : ClientHeader) (frame msg : List UInt8) (behind : Mem) :
    Except Fault (List Effect × ℕ) := do
  let refused : List Effect × ℕ := ([.close, .clientFree c.playerid], 0)
  match ← amfRead env.stale behind msg with
  | none => return refused
  | some (v, readLen) =>
    if readLen ≠ msg.length ∨ amfIsArray v = false then return refused
    else forwardMessage env c h frame msg v behind

def translateMessage (link : List UInt8) (beyond : Mem) : Handling :=
  if link.length < clientHeaderSize then waits
  else
    let h := clientHeader link
    if link.length < h.len then waits
    else
      handled (decide (h.len < clientHeaderSize)) (translateFrame env c h (link.take h.len)
        (body clientHeaderSize h.len link beyond) (behindBody clientHeaderSize h.len link beyond))

/-! ## `auth.c` -/

def policyRequest : List UInt8 := ascii "<policy-file-request/>" ++ [0]

def tgwHead : List UInt8 := ascii "tgw_"

def afterLines : ℕ → List UInt8 → Option ℕ
  | 0, _ => some 0
  | _ + 1, [] => none
  | n + 1, b :: bs => (afterLines (if b = 10 then n else n + 1) bs).map (· + 1)

def toLower (b : UInt8) : UInt8 := if 65 ≤ b.toNat ∧ b.toNat ≤ 90 then b + 32 else b

/-- `do_amf_auth` from the check of the version on. The null pointer of a name or a token that is not a string is read. -/
def authRequest (frame : List UInt8) (v : AmfValue) : Except Fault (List Effect) :=
  let sn := amfGetInteger env (amfGet v 0)
  let version := if 3 < amfSize v then amfGetInteger env (amfGet v 3) else 0
  if env.version ≠ version then .ok [.respondAndClose sn retVersionMissmatch]
  else
    match amfGetString (amfGet v 1), amfGetString (amfGet v 2) with
    | some account, some token =>
      let request := Effect.authenticate ((account.take 127).map toLower) token frame sn env.serverId
      .ok (if env.authserverSends then [request] else [request, .respondAndClose sn retPermission])
    | _, _ => .error .outOfBounds

def doAmfAuth (frame msg : List UInt8) (behind : Mem) : Except Fault (List Effect) := do
  match ← amfRead env.stale behind msg with
  | none => return [.close]
  | some (v, readLen) =>
    if readLen ≠ msg.length ∨ amfIsArray v = false ∨ amfSize v < 3 then return [.close]
    else authRequest env frame v

def authFrame (h : ClientHeader) (frame msg : List UInt8) (behind : Mem) : Except Fault (List Effect × ℕ) := do
  if h.cmd ≠ cLoginRequest then return ([.close], 0)
  if h.flag ≠ 1 then return ([.close], h.len)
  let effects ← doAmfAuth env frame msg behind
  return (effects, h.len)

def authMessage (link : List UInt8) (beyond : Mem) : Handling :=
  if link = [] then .error .assertion
  else if link.take 23 = policyRequest then .ok ⟨[.sendPolicy], 23, false⟩
  else if link.take 4 = tgwHead then
    match afterLines 3 link with
    | some n => .ok ⟨[], n, false⟩
    | none => waits
  else if link.length < clientHeaderSize then waits
  else
    let h := clientHeader link
    if link.length < h.len then waits
    else
      handled (decide (h.cmd = cLoginRequest ∧ h.flag = 1 ∧ h.len < clientHeaderSize))
        (authFrame env h (link.take h.len) (body clientHeaderSize h.len link beyond)
          (behindBody clientHeaderSize h.len link beyond))

/-! ## `world.c` and `backend.c` -/

/-- `client_get_by_playerid` where a client without a connection is passed over. -/
def connectedClient (pid : ℕ) : Option Client := (env.clients pid).filter (·.conn.isSome)

def broadcastToClient (r : BroadcastRequest) : List Effect :=
  if r.pids = [] then [.toClients r.cmd r.flag r.msg]
  else r.pids.flatMap fun pid =>
    match env.clients pid with
    | none => []
    | some c => [.toClient c.conn r.cmd r.flag r.msg]

def arrayHead (n : ℕ) : List UInt8 := amfCode .array :: (u29 (2 * n + 1) ++ [0x01])

def loginRespond (sn result playerid : ℕ) : List UInt8 :=
  arrayHead 4 ++ wire (some (.integer (UInt32.ofNat sn))) ++ wire (some (.integer (UInt32.ofNat result))) ++
    (amfCode .double :: Binary64.toBytes (Binary64.ofNat playerid)) ++
    if result = retSuccess ∨ result = retCharacterNotExist then
      wire (some (.string (accountName env playerid)))
    else []

def loginNotice : List UInt8 :=
  wire (some (loginRequest [] [] c.vip c.vip2))

def respondResult (msg : List UInt8) : Except Fault (ℕ × ℕ) := do
  match ← amfDecodeArray msg with
  | none => .error .assertion
  | some (sz, data) =>
    Lib.assert (decide (2 ≤ sz))
    let (sn, data) := (amfDecodeInteger data).getD (0, data)
    let (result, _) := (amfDecodeInteger data).getD (0, data)
    return (sn, result)

def translateToClient (pid : ℕ) (h : TranslateHeader) (msg : List UInt8) : Except Fault (List Effect) :=
  match connectedClient env pid with
  | none => .ok []
  | some c => do
    let sent := if h.cmd = cLoginRespond then [] else [Effect.toClient c.conn h.cmd h.flag msg]
    let left := if h.cmd = cLogoutRespond then
        [.closeClient (c.conn.getD 0), .toBackends c.playerid cLogoutRequest 1 logoutRequest, .clientFree c.playerid]
      else []
    if h.cmd = cLoginRespond ∨ h.cmd = cCreatePlayerRespond then
      let (sn, result) ← respondResult msg
      let answered := if h.cmd = cLoginRespond then
          [Effect.toClient c.conn h.cmd h.flag (loginRespond env sn result pid)]
        else []
      let noticed := if result = retSuccess then [Effect.toBackends c.playerid cLoginRequest 1 (loginNotice c)] else []
      if h.cmd = cLoginRespond ∧ result ≠ retSuccess ∧ result ≠ retCharacterNotExist then
        return sent ++ answered ++ [.startAuth c.conn]
      return sent ++ answered ++ noticed ++ left
    else return sent ++ left

/-- `process_message` of a world link; a request is taken from the header to the end of what has been received. -/
def worldMessage (world : ℕ) (link : List UInt8) (beyond : Mem) : Handling :=
  if link.length < headerSize then waits
  else
    let h := translateHeader link
    if link.length < h.len then waits
    else
      let pid := ntohlPidAndSid h.playerid h.serverid
      let data := link.drop headerSize
      if h.cmd = sServiceBroadcastRequest then
        if pid ≠ 0 then .ok ⟨[], h.len, false⟩
        else
          match env.broadcastRequest data with
          | none => .ok ⟨[.request data], h.len, false⟩
          | some r => .ok ⟨.request data :: broadcastToClient env r ++
              sendToWorld env world 0 sServiceBroadcastRespond 2 (env.broadcastRespond r.sn), h.len, false⟩
      else
        handled (decide (h.len < headerSize)) do
          let effects ← translateToClient env pid h (body headerSize h.len link beyond)
          return (effects, h.len)

def backendFrame (peer pid : ℕ) (h : TranslateHeader) (msg : List UInt8) : Except Fault (List Effect) :=
  if h.cmd = cLogoutRespond then .ok []
  else if h.cmd = sServiceRegisterRespond then .ok []
  else if h.cmd = sServiceBroadcastRequest then
    if pid ≠ 0 then .ok []
    else
      match env.broadcastRequest msg with
      -- A message that does not parse is a null pointer.
      | none => .error .outOfBounds
      | some r => .ok (.request msg :: broadcastToClient env r ++
          [.toBackend peer 0 sServiceBroadcastRespond 2 (env.broadcastRespond r.sn)])
  else
    match connectedClient env pid with
    | none => .ok []
    | some c => .ok [.toClient c.conn h.cmd h.flag msg]

def backendMessage (peer : ℕ) (link : List UInt8) (beyond : Mem) : Handling :=
  if link.length < headerSize then waits
  else
    let h := translateHeader link
    if link.length < h.len then waits
    else
      let pid := ntohlPidAndSid h.playerid h.serverid
      handled (decide (h.len < headerSize)) do
        let effects ← backendFrame env peer pid h (body headerSize h.len link beyond)
        return (effects, h.len)

/-! ## Handlers and frames -/

inductive Handler
  | translating (c : Client)
  | authenticating
  | world (id : ℕ)
  | backend (id : ℕ)

def Handler.onMessage (handler : Handler) (link : List UInt8) (beyond : Mem) : Handling :=
  match handler with
  | .translating c => translateMessage env c link beyond
  | .authenticating => authMessage env link beyond
  | .world id => worldMessage env id link beyond
  | .backend id => backendMessage env id link beyond

/-- The bytes are exactly one complete frame: a text the authenticating handler knows, or a header and what it
announces, which is nothing where it announces less than itself. -/
def Handler.FirstFrame (handler : Handler) (frame : List UInt8) : Prop :=
  match handler with
  | .translating _ => clientHeaderSize ≤ frame.length ∧ frame.length = max clientHeaderSize (clientHeader frame).len
  | .authenticating =>
    frame = policyRequest ∨ frame.take 4 = tgwHead ∧ afterLines 3 frame = some frame.length ∨
      frame.take 23 ≠ policyRequest ∧ frame.take 4 ≠ tgwHead ∧ clientHeaderSize ≤ frame.length ∧
        frame.length = max clientHeaderSize (clientHeader frame).len
  | _ => headerSize ≤ frame.length ∧ frame.length = max headerSize (translateHeader frame).len

def Handler.announced (handler : Handler) (frame : List UInt8) : ℕ :=
  match handler with
  | .translating _ => (clientHeader frame).len
  | .authenticating =>
    if frame = policyRequest ∨ frame.take 4 = tgwHead then frame.length else (clientHeader frame).len
  | _ => (translateHeader frame).len

/-- The handler does the same with the frame whatever the bytes behind it are, it closes the connection or steps over
the frame, and no body length wraps around. -/
def Handler.Isolated (handler : Handler) (frame : List UInt8) : Prop :=
  ∃ o : Handled, (∀ trailing beyond, handler.onMessage env (frame ++ trailing) beyond = .ok o) ∧
    (o.closes ∨ o.ret = handler.announced frame) ∧ o.wrapped = false

/-- A client's frame is as long as its header and has a complete message that fits the tables of the reader, or none; a login
of an authenticating client also has the strings that are used. A world's frame is no broadcast request of channel 0, and
as long as its header unless it is one of another channel; a login response has its two numbers. A backend's frame is as
long as its header, and its broadcast request is one. -/
def Handler.Sound (handler : Handler) (frame : List UInt8) : Prop :=
  match handler with
  | .translating _ =>
    let msg := frame.drop clientHeaderSize
    clientHeaderSize ≤ (clientHeader frame).len ∧ ¬ Overfull msg ∧ (Cut msg → msg = [])
  | .authenticating =>
    let h := clientHeader frame
    let msg := frame.drop clientHeaderSize
    frame = policyRequest ∨ frame.take 4 = tgwHead ∨ (h.cmd = cLoginRequest → h.flag = 1 →
      clientHeaderSize ≤ h.len ∧ ¬ Overfull msg ∧
        ∀ v behind, amfRead env.stale behind msg = .ok (some (v, msg.length)) → amfIsArray v = true → 3 ≤ amfSize v →
          ¬ Cut msg ∧ (env.version = (if 3 < amfSize v then amfGetInteger env (amfGet v 3) else 0) →
            (amfGetString (amfGet v 1)).isSome ∧ (amfGetString (amfGet v 2)).isSome))
  | .world _ =>
    let h := translateHeader frame
    let pid := ntohlPidAndSid h.playerid h.serverid
    if h.cmd = sServiceBroadcastRequest then pid ≠ 0
    else headerSize ≤ h.len ∧ ((connectedClient env pid).isSome → h.cmd = cLoginRespond ∨ h.cmd = cCreatePlayerRespond →
      ∃ sz data, amfDecodeArray (frame.drop headerSize) = .ok (some (sz, data)) ∧ 2 ≤ sz)
  | .backend _ =>
    let h := translateHeader frame
    headerSize ≤ h.len ∧ (h.cmd = sServiceBroadcastRequest → ntohlPidAndSid h.playerid h.serverid = 0 →
      (env.broadcastRequest (frame.drop headerSize)).isSome)

end CServer.Gateway
