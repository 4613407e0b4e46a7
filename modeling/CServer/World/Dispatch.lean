import CServer.Framework.AmfRead

/-! # `world/dispatch.c` and `world/modules/request_queue.c`: requests of players

A gateway link carries frames of many players. `process_message` takes one frame off the front of
the bytes at hand; a request of a logged-in player goes through the queue of that player, the others
are processed at once. `Env` stands for the rest of the server: which characters can be loaded, the
anti-addiction check, and what the functions behind the command table do to the player objects.
Messages sent to players are left out.
-/
namespace CServer.World
open CServer.Lib CServer.Framework Function

/-! ## Players and their queues -/

structure Request where
  cmd : ℕ
  flag : ℕ
  data : List UInt8

/-- `REQUEST_ITEM`. `serial` is not in the source: it numbers the requests pushed for one player. -/
structure Item extends Request where
  busy : Bool
  serial : ℕ

/-- `struct Player`: the connection, `none` for `INVALID_ID`, and the request queue. -/
structure Player where
  conn : Option ℕ
  queue : List Item

/-- What the rest of the server does to a player: nothing, `player_get`, it sets `busy` at the head of
the queue, `player_set_conn` with `INVALID_ID`, `player_unload`. -/
inductive Effect
  | kept
  | loaded
  | deferred
  | offline
  | unloaded
  deriving DecidableEq

def setBusy : List Item → List Item
  | [] => []
  | item :: queue => { item with busy := true } :: queue

def Effect.apply : Effect → Option Player → Option Player
  | .kept, p => p
  | .loaded, none => some ⟨none, []⟩
  | .loaded, some p => some p
  | .deferred, p => p.map fun p => { p with queue := setBusy p.queue }
  | .offline, p => p.map fun p => { p with conn := none }
  | .unloaded, _ => none

structure Call where
  conn : ℕ
  playerid : ℕ
  cmd : ℕ
  flag : ℕ
  value : Option AmfValue
  data : List UInt8

structure Env (σ : Type) where
  /-- A player object can be loaded for the id. -/
  canLoad : σ → ℕ → Bool
  /-- `addicted_can_login`, and what it, `realtime_online_add` and `addicted_login` change. -/
  canLogin : σ → ℕ → Bool × σ
  /-- The player has been on the zombie list for longer than `YQ_MAX_ZOMBIE_TIME`. -/
  expired : σ → ℕ → Bool
  /-- The command functions: what they do to each player, and what else they change; some have assertions. -/
  handle : σ → Call → Except Fault ((ℕ → Effect) × σ)
  /-- Uninitialised locals of `amf_read`. -/
  stale : Stale
  /-- Memory behind the bytes of a link. -/
  beyond : Mem
  /-- Memory behind a request in a queue. -/
  behind : σ → Item → Mem

/-- The loaded players and the rest of the server. `pushed` and `handed` are not in the source: how many
requests `request_queue_push` has queued for a player, and which of them `process_next_request`
has given to `process_request`. -/
structure Server (σ : Type) where
  players : ℕ → Option Player
  rest : σ
  pushed : ℕ → ℕ
  handed : ℕ → List ℕ

variable {σ : Type} (env : Env σ)

variable (s : Server σ)

def Server.setPlayer (pid : ℕ) (p : Option Player) : Server σ :=
  { s with players := update s.players pid p }

def reservedId : ℕ := 1

def playerGet (pid : ℕ) : Option Player :=
  if pid < reservedId then none
  else
    match s.players pid with
    | some p => some p
    | none => if env.canLoad s.rest pid then some ⟨none, []⟩ else none

def loadPlayer (pid : ℕ) : Server σ :=
  match playerGet env s pid with
  | some p => s.setPlayer pid (some p)
  | none => s

def playerGetOnline (pid : ℕ) : Option (ℕ × Player) :=
  match s.players pid with
  | some ⟨some conn, queue⟩ => some (conn, ⟨some conn, queue⟩)
  | _ => none

def playerSetConn (pid conn : ℕ) : Server σ :=
  match playerGet env s pid with
  | some p => s.setPlayer pid (some { p with conn := some conn })
  | none => s

/-- `try_unload_player_from_zombie_list`: only players that are not online are on the list. -/
def unloadZombies : Server σ :=
  { s with players := fun pid =>
      match s.players pid with
      | some ⟨none, queue⟩ => if env.expired s.rest pid then none else some ⟨none, queue⟩
      | p => p }

/-- `request_queue_push`; `avail` is how many bytes there are from `data` on, `length` a `uint32_t`. -/
def requestQueuePush (pid : ℕ) (r : Request) (length avail : ℕ) :
    Except Fault (Server σ) :=
  match playerGet env s pid with
  | none => .ok s
  | some p => do
    assert (decide (length ≠ 0))
    if avail < length then .error .outOfBounds
    else
      let item : Item := { r with busy := false, serial := s.pushed pid }
      let s := s.setPlayer pid (some { p with queue := p.queue ++ [item] })
      return { s with pushed := update s.pushed pid (s.pushed pid + 1) }

def requestQueuePop (pid : ℕ) : Server σ :=
  match playerGet env s pid with
  | none => s
  | some p => s.setPlayer pid (some { p with queue := p.queue.tail })

def requestQueueFront (pid : ℕ) : Option Item :=
  match playerGet env s pid with
  | none => none
  | some p => p.queue.head?

/-! ## Processing a request -/

def Server.affect (effects : ℕ → Effect) (rest : σ) : Server σ :=
  { s with players := fun pid => (effects pid).apply (s.players pid), rest := rest }

def dispatchCommand (call : Call) : Except Fault (Server σ) := do
  let (effects, rest) ← env.handle s.rest call
  return s.affect effects rest

/-- `process_request`; `beyond` is the memory behind `data`. -/
def processRequest (conn pid : ℕ) (r : Request) (beyond : Mem) :
    Except Fault (Int × Server σ) :=
  if r.flag = 1 then do
    match ← amfRead env.stale beyond r.data with
    | none => return (-1, s)
    | some (v, readLen) =>
      if readLen ≠ r.data.length then return (-1, s)
      match v with
      | .array _ => return (0, ← dispatchCommand env s ⟨conn, pid, r.cmd, 1, some v, r.data⟩)
      | _ => return (-1, s)
  else if r.flag = 2 then return (0, ← dispatchCommand env s ⟨conn, pid, r.cmd, 2, none, r.data⟩)
  else .ok (-1, s)

inductive Pnr
  | error
  | more
  | busy
  | empty
  deriving DecidableEq

def processNextRequest (pid : ℕ) : Except Fault (Pnr × Server σ) :=
  match playerGetOnline s pid with
  | none => .ok (.empty, s)
  | some (conn, _) =>
    match requestQueueFront env s pid with
    | none => .ok (.empty, s)
    | some item =>
      if item.busy then .ok (.busy, s)
      else do
        let s := { s with handed := update s.handed pid (s.handed pid ++ [item.serial]) }
        let (ret, s) ← processRequest env s conn pid item.toRequest (env.behind s.rest item)
        if ret = -1 then return (.error, s)
        -- The item at the head is the one processed, unless the player was unloaded.
        let s := loadPlayer env s pid
        match requestQueueFront env s pid with
        | none => return (.empty, s)
        | some item =>
          if item.busy then return (.busy, s)
          let s := requestQueuePop env s pid
          return (if (requestQueueFront env s pid).isSome then .more else .empty, s)

/-- `while(PNR_MORE == process_next_request(playerid));`. Every turn but the last pops a request. -/
def drain : ℕ → Server σ → ℕ → Except Fault (Server σ)
  | 0, _, _ => .error .diverges
  | fuel + 1, s, pid => do
    match ← processNextRequest env s pid with
    | (.more, s) => drain fuel s pid
    | (_, s) => return s

/-! ## Frames -/

def headerSize : ℕ := 28

variable (link : List UInt8)

def ntohl (off : ℕ) : ℕ :=
  ((link.drop off).take 4).foldl (fun n b => n * 256 + b.toNat) 0

/-- The fields of `struct translate_header` that are used. `ntohl` of the 64-bit `playerid` reads its
first four bytes. -/
structure TranslateHeader where
  len : ℕ
  playerid : ℕ
  flag : ℕ
  cmd : ℕ
  serverid : ℕ

def translateHeader : TranslateHeader :=
  ⟨ntohl link 0, ntohl link 8, ntohl link 16, ntohl link 20, ntohl link 24⟩

def cLoginRequest : ℕ := 1
def cLogoutRequest : ℕ := 3
def cCreatePlayerRequest : ℕ := 7

def TranslateHeader.pid (h : TranslateHeader) : ℕ :=
  if 0 < h.playerid then h.serverid * 2 ^ 32 + h.playerid else 0

/-- `data_len` as the `unsigned int` that `process_request` and `request_queue_push` get. -/
def TranslateHeader.dataLen (h : TranslateHeader) : ℕ := (h.len + 2 ^ 32 - headerSize) % 2 ^ 32

def linkMem (beyond : Mem) : Mem :=
  fun i => if i < link.length then link.getD i 0 else beyond (i - link.length)

def frameRequest : Request :=
  let h := translateHeader link
  ⟨h.cmd, h.flag, slice (linkMem link env.beyond) headerSize h.dataLen⟩

def processMessage (conn : ℕ) (link : List UInt8) : Except Fault (ℕ × Server σ) :=
  if link.length < headerSize then .ok (0, s)
  else
    let h := translateHeader link
    if link.length < h.len then .ok (0, s)
    else
      let s := unloadZombies env s
      if h.serverid = 0 ∧ h.playerid ≠ 0 then .ok (0, s)
      else if 0 < h.playerid ∧ (env.canLogin s.rest h.pid).1 = false ∧ h.cmd ≠ cLoginRequest ∧
          h.cmd ≠ cLogoutRequest then
        .ok (h.len, loadPlayer env { s with rest := (env.canLogin s.rest h.pid).2 } h.pid)
      else do
        let s := if 0 < h.playerid then
            playerSetConn env { s with rest := (env.canLogin s.rest h.pid).2 } h.pid conn
          else s
        let r := frameRequest env link
        if h.pid ≠ 0 ∧ h.cmd ≠ cLoginRequest ∧ h.cmd ≠ cCreatePlayerRequest then
          let s ← requestQueuePush env s h.pid r h.dataLen (link.length - headerSize)
          let queued := match s.players h.pid with
            | some p => p.queue.length
            | none => 0
          let s ← drain env (queued + 1) s h.pid
          return (h.len, s)
        else
          let (ret, s) ← processRequest env s conn h.pid r
            fun i => linkMem link env.beyond (headerSize + h.dataLen + i)
          return (if ret = 0 then h.len else 0, s)

end CServer.World
