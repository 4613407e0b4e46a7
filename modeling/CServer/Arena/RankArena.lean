import CServer.Lib.Memory
import CServer.Lib.Exec
import CServer.Lib.Keyed

/-! # `arena/RankArenaLogic.lua`: the ladder of the arena

The order of a player is a column of his row in the table `arena` and a field of the player in memory;
`arenaQueue` has the player of every order. The database is called without waiting and each call may
fail; the other services answer later, and `inFlight` holds the requests that wait for one. -/
namespace CServer.Arena
open CServer.Lib Function

/-! ## Data -/

/-- A row of the table `arena`, without the columns that no request of the ladder writes. -/
structure Row where
  order : ℕ
  cwin : ℕ := 0
  fightTime : ℕ := 0
  fightCount : ℕ := 0
  addFightCount : ℕ := 0
  addFightCountTime : ℕ := 0
  xorder : ℕ := 0
  xorderDate : ℕ := 0
  dailyRewardFlag : ℕ := 0
  dailyRewardFlagUpdateTime : ℕ := 0
  todayWinCount : ℕ := 0
  todayWinCountUpdateTime : ℕ := 0
  lastRefreshEnemyListTime : ℕ := 0
  deriving DecidableEq

/-- `RankArenaPlayer`: the row as it was read or written last, and the enemies the player was offered:
their positions, or in the other game their ids. -/
structure Player where
  row : Row
  enemyList : List ℕ := []
  deriving DecidableEq

/-- What the database does in a request: whether a row can be read, with the enemies that are read with it,
and whether a row can be written. -/
structure Db where
  loaded : Option (List ℕ)
  updated : Bool

inductive Call
  | level
  | cost
  | attackerData
  | defenderData
  | fight
  deriving DecidableEq

def Call.next : Call → Option Call
  | .level => some .cost
  | .cost => some .attackerData
  | .attackerData => some .defenderData
  | .defenderData => some .fight
  | .fight => none

/-- Where a request waits. The last is an attack that was lost: with the new count of fights and the
time it waits for the VIP level of the attacker. -/
inductive Waiting
  | neighbors
  | attackSgk (target : ℕ) (call : Call)
  | attack (target : ℕ) (call : Call)
  | vip (count time : ℕ)
  deriving DecidableEq

structure Request where
  rid : ℕ
  pid : ℕ
  at' : Waiting
  deriving DecidableEq

/-- The tables of the process, with the rows in the database. `setArenaInfo` assigns two variables of the module under the
names of properties, which are the class's own entries: from then on they are read in place of the properties. -/
structure RankArena where
  rows : ℕ → Option Row
  all : ℕ → Option Player := fun _ => none
  count : ℕ := 0
  maxOrder : ℤ := -1
  aiNotJoin : List ℕ := []
  arenaQueue : ℕ → Option ℕ := fun _ => none
  fightList : ℕ → Option ℕ := fun _ => none
  dailyRewardFlagUpdateTime : Option ℕ := none
  todayWinCountUpdateTime : Option ℕ := none
  now : ℕ := 0
  inFlight : List Request := []
  nextRid : ℕ := 0

/-! ## `RankArenaPlayer` -/

def timeBase : ℤ := 1295712000
def daySeconds : ℤ := 24 * 3600
def rewardTime : ℤ := 22 * 3600
def fightCountRefresh : ℤ := 0

def round (t : ℤ) : ℤ := (if timeBase < t then t - timeBase else t) / daySeconds

def refreshed (otime now : ℕ) (at' : ℤ) : Bool := decide (round (otime - at') < round (now - at'))

namespace Player
variable (p : Player) (now : ℕ)

def order : ℕ := p.row.order

def fightCount : ℕ := if refreshed p.row.fightTime now fightCountRefresh then 0 else p.row.fightCount

def addFightCount : ℕ :=
  if refreshed p.row.addFightCountTime now fightCountRefresh then 0 else p.row.addFightCount

def dailyRewardFlag : ℕ :=
  if refreshed p.row.dailyRewardFlagUpdateTime now 0 then 0 else p.row.dailyRewardFlag

def todayWinCount : ℕ := if refreshed p.row.todayWinCountUpdateTime now 0 then 0 else p.row.todayWinCount

def checkXOrder : ℕ × ℕ :=
  if refreshed p.row.xorderDate now rewardTime then (p.row.order, now) else (p.row.xorder, p.row.xorderDate)

end Player

/-- The arguments of `setArenaInfo`, without the one that is kept in memory only. -/
structure ArenaInfo where
  count : Option ℕ := none
  time : Option ℕ := none
  cwin : Option ℕ := none
  order : Option ℕ := none
  addCount : Option ℕ := none
  dailyRewardFlag : Option ℕ := none
  todayWinCount : Option ℕ := none
  lastRefreshEnemyListTime : Option ℕ := none
  addFightCountTime : Option ℕ := none

def ArenaInfo.noChange (a : ArenaInfo) (old : Player) (now : ℕ) : Bool :=
  old.row.fightCount == a.count.getD old.row.fightCount && old.row.fightTime == a.time.getD old.row.fightTime &&
    old.row.cwin == a.cwin.getD old.row.cwin && old.row.order == a.order.getD old.row.order &&
    old.addFightCount now == a.addCount.getD (old.addFightCount now) && a.dailyRewardFlag.isNone &&
    a.todayWinCount.isNone && a.lastRefreshEnemyListTime.isNone

/-- The row that `setArenaInfo` writes, with the two update times. What it puts in for the arguments that are missing was
read before `today_win_count_update_time` had the player loaded again, but for one column. -/
def ArenaInfo.row (a : ArenaInfo) (old loaded : Player) (now dailyTime winTime : ℕ) : Row where
  order := a.order.getD old.row.order
  cwin := a.cwin.getD old.row.cwin
  fightTime := a.time.getD old.row.fightTime
  fightCount := a.count.getD old.row.fightCount
  addFightCount := a.addCount.getD (old.addFightCount now)
  addFightCountTime := a.addFightCountTime.getD old.row.addFightCountTime
  xorder := (loaded.checkXOrder now).1
  xorderDate := (loaded.checkXOrder now).2
  dailyRewardFlag := a.dailyRewardFlag.getD (old.dailyRewardFlag now)
  dailyRewardFlagUpdateTime := dailyTime
  todayWinCount := a.todayWinCount.getD (old.todayWinCount now)
  todayWinCountUpdateTime := winTime
  lastRefreshEnemyListTime := a.lastRefreshEnemyListTime.getD loaded.row.lastRefreshEnemyListTime

namespace RankArena
variable (s : RankArena)

def order (id : ℕ) : Option ℕ := (s.all id).map Player.order

variable (id : ℕ)

def getPlayer : Option Player := s.all id

def getPlayerByPos (pos : ℕ) : Option ℕ := s.arenaQueue pos

def setPlayer (p : Player) : RankArena := { s with all := update s.all id (some p) }

def loadPlayerArenaInfo (db : Db) : Option Player :=
  match db.loaded, s.rows id with
  | some enemies, some row => some ⟨if row.xorderDate = 0 then { row with xorderDate := s.now } else row, enemies⟩
  | _, _ => none

/-- Loading a player again, who stays as he is where it fails. -/
def reload (p : Player) (db : Db) : Player := (s.loadPlayerArenaInfo id db).getD p

/-- Reading `today_win_count_update_time`, a property that has the player loaded every time. -/
def readWinTime (p : Player) (db : Db) : Player × ℕ :=
  match s.todayWinCountUpdateTime with
  | some time => (p, time)
  | none => (s.reload id p db, (s.reload id p db).row.todayWinCountUpdateTime)

def readDailyTime (p : Player) : ℕ := s.dailyRewardFlagUpdateTime.getD p.row.dailyRewardFlagUpdateTime

def setArenaInfo (a : ArenaInfo) (db : Db) : RankArena :=
  match s.getPlayer id with
  | none => s
  | some old =>
    let loaded := (s.readWinTime id old db).1
    let dailyTime := if a.dailyRewardFlag.isSome then s.now else s.readDailyTime old
    let winTime := if a.todayWinCount.isSome then s.now else (s.readWinTime id old db).2
    let s := { s with dailyRewardFlagUpdateTime := some dailyTime, todayWinCountUpdateTime := some winTime }
    if a.noChange old s.now then s.setPlayer id loaded
    else if db.updated then
      let row := a.row old loaded s.now dailyTime winTime
      { s with rows := update s.rows id (some row), all := update s.all id (some { loaded with row }) }
    else s.setPlayer id loaded

def setQueue : RankArena :=
  match s.getPlayer id with
  | none => s
  | some p => { s with arenaQueue := update s.arenaQueue p.order (some id) }

def refreshEnemyList (enemyList : List ℕ) : RankArena :=
  match enemyList, s.getPlayer id with
  | [], _ => s
  | _, none => s
  | _, some p => s.setPlayer id { p with enemyList }

/-! ## `RankArenaPlayerManager` -/

def aiJoinRankArena : RankArena := { s with aiNotJoin := s.aiNotJoin.filter (· ≠ id) }

/-- `Player.New`, with the entry in `all` and in the count where the player could be loaded. -/
def newPlayer (db : Db) : RankArena × Option Player :=
  let s := s.aiJoinRankArena id
  match s.loadPlayerArenaInfo id db with
  | none => (s, none)
  | some p => ({ s with all := update s.all id (some p), count := s.count + 1 }, some p)

/-- `Create`, with the player it returns. The row of a player who has one cannot be inserted; the row that
was inserted stays where the player cannot be loaded. -/
def create (db : Db) : RankArena × Option Player :=
  if (s.all id).isSome then (s, none)
  else if db.updated && (s.rows id).isNone then
    { s with rows := update s.rows id (some { order := s.count + 1 }) }.newPlayer id db
  else (s, none)

def updateMaxOrder (order : ℕ) : RankArena := { s with maxOrder := max s.maxOrder order }

/-! ## Joining -/

/-- The entry of a new player in `ArenaQueue`; there is none where the assertion fails. -/
def enlist (p : Player) : Option RankArena :=
  if s.arenaQueue p.order = none then
    some ({ s with arenaQueue := update s.arenaQueue p.order (some id) }.updateMaxOrder p.order)
  else none

/-- Creating a player and entering him; `false` if the assertion fails, which ends the request. -/
def addOne (db : Db) : RankArena × Bool :=
  match s.create id db with
  | (s, none) => (s, true)
  | (s, some p) =>
    match s.enlist id p with
    | none => (s, false)
    | some s => (s, true)

/-- The loop over the AI players that `genRankArenaAIEnemy` drew. -/
def addAIs (s : RankArena) : List (ℕ × Db) → RankArena × Bool
  | [] => (s, true)
  | (id, db) :: ais =>
    match s.addOne id db with
    | (s, false) => (s, false)
    | (s, true) => s.addAIs ais

def addPlayer (db : Db) (ais : List (ℕ × Db)) : RankArena × Bool :=
  match s.getPlayer id with
  | some _ => (s, true)
  | none =>
    match s.addOne id db with
    | (s, false) => (s, false)
    | (s, true) => if s.aiNotJoin = [] then (s, true) else s.addAIs (ais.filter fun ai => ai.1 ∈ s.aiNotJoin)

/-! ## Requests -/

def start (pid : ℕ) (w : Waiting) : RankArena :=
  { s with inFlight := s.inFlight ++ [⟨s.nextRid, pid, w⟩], nextRid := s.nextRid + 1 }

def wait (r : Request) (w : Waiting) : RankArena :=
  { s with inFlight := adjust Request.rid r.rid (fun r => { r with at' := w }) s.inFlight }

def finish (rid : ℕ) : RankArena := { s with inFlight := discard Request.rid rid s.inFlight }

end RankArena

open RankArena

variable (s : RankArena)

def onArenaJoin (pid : ℕ) (db : Db) (ais : List (ℕ × Db)) : RankArena :=
  match s.addPlayer pid db ais with
  | (s, false) => s
  | (s, true) =>
    match s.getPlayer pid with
    | none => s
    | some _ => s.start pid .neighbors

/-- The rest of `onArenaJoin`, with the positions `VPosition` drew for a player who has no enemies yet. -/
def joinReply (sgk : Bool) (s : RankArena) (r : Request) (vpos : List ℕ) : RankArena :=
  let s := s.finish r.rid
  match s.getPlayer r.pid with
  | none => s
  | some p =>
    if p.enemyList ≠ [] then s
    else if sgk then s.refreshEnemyList r.pid (vpos.filter fun idx => (s.getPlayerByPos idx).isSome)
    else s.refreshEnemyList r.pid (vpos.filterMap s.getPlayerByPos)

/-! ## Attacks -/

def onArenaAttackSgk (pid targetPos targetId : ℕ) : RankArena :=
  match s.getPlayer pid, s.getPlayer targetId with
  | some attacker, some target =>
    if target.order ≠ targetPos then s
    else if targetPos ∈ attacker.enemyList then s.start pid (.attackSgk targetId .level)
    else s
  | _, _ => s

def onArenaAttack (pid targetId : ℕ) : RankArena :=
  match s.getPlayer pid, s.getPlayer targetId with
  | some attacker, some _ =>
    if targetId ∈ attacker.enemyList then s.start pid (.attack targetId .level) else s
  | _, _ => s

/-- The end of an attack that was won: the two updates, then `ArenaQueue`. -/
def fightWon (attackerId targetId : ℕ) (first second : Db) : RankArena :=
  match s.getPlayer attackerId, s.getPlayer targetId with
  | some attacker, some target =>
    let o1 := if target.order < attacker.order then target.order else attacker.order
    let o2 := if target.order < attacker.order then attacker.order else target.order
    let won : ArenaInfo := {
      count := some (attacker.fightCount s.now + 1)
      time := some s.now
      cwin := some (attacker.row.cwin + 1)
      order := some o1
      addCount := some (attacker.addFightCount s.now)
      todayWinCount := some (attacker.todayWinCount s.now + 1) }
    let s := s.setArenaInfo attackerId won first
    let s := s.setArenaInfo targetId { cwin := some 0, order := some o2 } second
    (s.setQueue targetId).setQueue attackerId
  | _, _ => s

def refreshBoth (attackerId targetId : ℕ) (vpos vposTarget : List ℕ) : RankArena :=
  let s := s.refreshEnemyList attackerId (vpos.filter fun idx => (s.getPlayerByPos idx).isSome)
  s.refreshEnemyList targetId (vposTarget.filter fun idx => (s.getPlayerByPos idx).isSome)

def fightLost (attacker : Player) (now : ℕ) : Waiting := .vip (attacker.fightCount now + 1) now

def vipReply (r : Request) (count time : ℕ) (db : Db) : RankArena :=
  let s := s.finish r.rid
  match s.getPlayer r.pid with
  | none => s
  | some attacker =>
    s.setArenaInfo r.pid
      { count := some count, time := some time, cwin := some 0, addCount := some (attacker.addFightCount s.now) } db

/-- `onArenaFightCheck`; the winner is what the client says. -/
def onArenaFightCheck (pid : ℕ) (targetId winner : Option ℕ) (first second : Db) (vpos : List ℕ) :
    RankArena :=
  match targetId, winner with
  | some targetId, some winner =>
    if s.fightList pid ≠ some targetId then s
    else
      match s.getPlayer pid, s.getPlayer targetId with
      | some attacker, some _ =>
        if winner = 1 then
          let s := fightWon s pid targetId first second
          s.refreshEnemyList pid (vpos.filterMap s.getPlayerByPos)
        else s.start pid (fightLost attacker s.now)
      | _, _ => s
  | _, _ => s

/-! ## Steps -/

/-- What a service answers to a request that waits for it, with what the database does and the positions that
are drawn until the request waits again. -/
inductive Answer
  | failed
  | ok
  | neighbors (vpos : List ℕ)
  | fight (winner : ℕ) (first second : Db) (vpos vposTarget : List ℕ)
  | vip (db : Db)

inductive Act
  | clock (seconds : ℕ)
  | join (pid : ℕ) (db : Db) (ais : List (ℕ × Db))
  | attackSgk (pid targetPos targetId : ℕ)
  | attack (pid targetId : ℕ)
  | fightCheck (pid : ℕ) (targetId winner : Option ℕ) (first second : Db) (vpos : List ℕ)
  | reply (rid : ℕ) (answer : Answer)

def reply (sgk : Bool) (s : RankArena) (r : Request) : Answer → RankArena
  | .failed => s.finish r.rid
  | .ok =>
    match r.at' with
    | .attackSgk target call =>
      match call.next with
      | none => s
      | some call => s.wait r (.attackSgk target call)
    | .attack target call =>
      if call = .defenderData then { s with fightList := update s.fightList r.pid (some target) }.finish r.rid
      else
        match call.next with
        | none => s
        | some call => s.wait r (.attack target call)
    | _ => s
  | .neighbors vpos => if r.at' = .neighbors then joinReply sgk s r vpos else s
  | .fight winner first second vpos vposTarget =>
    match r.at' with
    | .attackSgk target .fight =>
      if winner = 1 then
        refreshBoth (fightWon (s.finish r.rid) r.pid target first second) r.pid target vpos vposTarget
      else
        match s.getPlayer r.pid with
        | none => s.finish r.rid
        | some attacker => s.wait r (fightLost attacker s.now)
    | _ => s
  | .vip db =>
    match r.at' with
    | .vip count time => vipReply s r count time db
    | _ => s

def step (sgk : Bool) (s : RankArena) : Act → Except Fault RankArena
  | .clock seconds => .ok { s with now := s.now + seconds }
  | .join pid db ais => .ok (onArenaJoin s pid db ais)
  | .attackSgk pid targetPos targetId => .ok (onArenaAttackSgk s pid targetPos targetId)
  | .attack pid targetId => .ok (onArenaAttack s pid targetId)
  | .fightCheck pid targetId winner first second vpos =>
    .ok (onArenaFightCheck s pid targetId winner first second vpos)
  | .reply rid answer =>
    match lookup Request.rid rid s.inFlight with
    | none => .ok s
    | some r => .ok (reply sgk s r answer)

/-! ## The start of the process -/

/-- The rows of the table `arena` with their pids, the primary key. -/
structure Table where
  rows : List (ℕ × Row)
  distinct : DistinctKeys Prod.fst rows

def Table.row (t : Table) (pid : ℕ) : Option Row := (lookup Prod.fst pid t.rows).map Prod.snd

/-- `LoadAll` for the rows it selected; `db` says what the database does for each. -/
def loadRows (db : ℕ → Db) (s : RankArena) : List (ℕ × Row) → RankArena
  | [] => s
  | (pid, row) :: rest => loadRows db ((s.newPlayer pid (db pid)).1.updateMaxOrder row.order) rest

def createAIs (s : RankArena) : List (ℕ × Db) → RankArena
  | [] => s
  | (id, db) :: ais => createAIs (s.create id db).1 ais

/-- What the start finds: the table, whether it can be selected and what the database does with each
row, the AI players of `genOriginalRankArenaAIEnemy` and those that `ai_not_join_rank_arena` has. -/
structure Boot where
  table : Table
  selected : Bool
  db : ℕ → Db
  ais : List (ℕ × Db)
  aiNotJoin : List ℕ

namespace Boot
variable (b : Boot)

def blank : RankArena := { rows := b.table.row, aiNotJoin := b.aiNotJoin }

def loadAll : RankArena :=
  if b.selected then
    let s := loadRows b.db b.blank b.table.rows
    if b.table.rows.all fun row => (s.all row.1).isNone then createAIs s b.ais else s
  else b.blank

/-- The loop that sets `ArenaQueue`; `pids` are the players of `all` as `pairs` goes through them. -/
def start (pids : List ℕ) : RankArena :=
  { b.loadAll with
    arenaQueue := pids.foldl (fun queue pid =>
      match b.loadAll.all pid with
      | none => queue
      | some p => update queue p.order (some pid)) fun _ => none }

end Boot

end CServer.Arena
