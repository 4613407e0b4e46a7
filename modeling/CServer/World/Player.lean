import CServer.Lib.Exec
import CServer.Lib.DList
import CServer.Lib.Index

/-! # `world/player.c`: the player manager

Loaded players are found by id in `player_online` or `player_offline`. All of them are on `player_active_list`; those that
are offline are also on `player_zombie_list`, in the order in which they were last asked for, and in `player_zombie_table`,
until `try_unload_player_from_zombie_list` releases them.

A player is an address that is not handed out twice, each field of `struct Player` a function of the address, a pointer map
a function of the id. What the database and the modules of a player answer is an argument. `SUPPORT_ZOMBIE_LIST` is 1. Not
part of the program are `touched`, when a player was last loaded, got or logged out, and `unloaded`, the players released.
-/
namespace CServer.World
open CServer.Lib List
open Function (update update_self update_of_ne)

/-! ## The code -/

def invalidId : UInt32 := 0xffffffff

def PlayerManager.reservedId : UInt64 := 1

def yqMaxZombieTime : ℕ := 15 * 60

structure PlayerManager where
  alive : ℕ → Bool
  prev : ℕ → Option ℕ
  next : ℕ → Option ℕ
  zombiePrev : ℕ → Option ℕ
  zombieNext : ℕ → Option ℕ
  zombieTime : ℕ → ℕ
  conn : ℕ → UInt32
  id : ℕ → UInt64
  notExist : UInt64 → ℕ
  online : UInt64 → Option ℕ
  offline : UInt64 → Option ℕ
  activeList : Option ℕ
  zombieList : Option ℕ
  zombieTable : UInt64 → Option ℕ
  current : ℕ
  fresh : ℕ
  touched : ℕ → ℕ
  unloaded : List ℕ

def modulePlayerLoad (now : ℕ) : PlayerManager where
  alive := fun _ => false
  prev := fun _ => none
  next := fun _ => none
  zombiePrev := fun _ => none
  zombieNext := fun _ => none
  zombieTime := fun _ => 0
  conn := fun _ => 0
  id := fun _ => 0
  notExist := fun _ => 0
  online := fun _ => none
  offline := fun _ => none
  activeList := none
  zombieList := none
  zombieTable := fun _ => none
  current := now
  fresh := 0
  touched := fun _ => 0
  unloaded := []

variable (s : PlayerManager)

def PlayerManager.actives : DHeap := ⟨s.alive, s.prev, s.next⟩

def PlayerManager.zombies : DHeap := ⟨s.alive, s.zombiePrev, s.zombieNext⟩

def PlayerManager.access (s : PlayerManager) (player : ℕ) : Except Fault Unit := s.actives.access player

variable (id : UInt64)

/-- `MALLOC` and `memset` of a player, and the assignment of its id. -/
def PlayerManager.malloc : PlayerManager :=
  { s with
    alive := update s.alive s.fresh true
    prev := update s.prev s.fresh none
    next := update s.next s.fresh none
    zombiePrev := update s.zombiePrev s.fresh none
    zombieNext := update s.zombieNext s.fresh none
    zombieTime := update s.zombieTime s.fresh 0
    conn := update s.conn s.fresh 0
    id := update s.id s.fresh id
    fresh := s.fresh + 1 }

variable (player : ℕ)

def PlayerManager.leaveActiveList : Except Fault (DHeap × Option ℕ) :=
  if s.next player ≠ none then dlistRemove s.actives s.activeList player else .ok (s.actives, s.activeList)

def PlayerManager.updatePlayerActiveList : Except Fault PlayerManager := do
  s.access player
  let (heap, list) ← s.leaveActiveList player
  let (heap, list) ← dlistInsertTail heap list player
  .ok { s with prev := heap.prev, next := heap.next, activeList := list }

def PlayerManager.tryAddPlayerToZombieList : Except Fault PlayerManager := do
  let (heap, list) ← dlistRemove s.zombies s.zombieList player
  let (heap, list) ← dlistInsertTail (dlistInit heap player) list player
  .ok { s with
    zombiePrev := heap.prev
    zombieNext := heap.next
    zombieList := list
    zombieTime := update s.zombieTime player s.current
    zombieTable := update s.zombieTable (s.id player) (some player) }

def PlayerManager.tryRemovePlayerFromZombieList : Except Fault PlayerManager :=
  if s.zombieList = none then .ok s
  else do
    let (heap, list) ← dlistRemove s.zombies s.zombieList player
    let heap := dlistInit heap player
    .ok { s with
      zombiePrev := heap.prev
      zombieNext := heap.next
      zombieList := list
      zombieTable := update s.zombieTable (s.id player) none }

def PlayerManager.getPlayerFromZombieList (pid : UInt64) : Option ℕ := s.zombieTable pid

def PlayerManager.agPMGetOnline : Except Fault (PlayerManager × Option ℕ) :=
  match s.online id with
  | none => .ok (s, none)
  | some player => do
    let s ← s.tryRemovePlayerFromZombieList player
    let s ← s.updatePlayerActiveList player
    .ok (s, some player)

def PlayerManager.agPMSetOnline (conn : UInt32) : Except Fault PlayerManager := do
  s.access player
  let s :=
    if s.conn player = invalidId then
      { s with
        online := update s.online (s.id player) (some player)
        offline := update s.offline (s.id player) none }
    else s
  let s := { s with conn := update s.conn player conn }
  s.tryRemovePlayerFromZombieList player

/-- `agPM_SetOffline`: its parameter is an `unsigned int`. -/
def PlayerManager.agPMSetOffline (id : UInt32) : Except Fault PlayerManager := do
  let (s, player) ← s.agPMGetOnline id.toUInt64
  match player with
  | none => .ok s
  | some player => do
    assert (decide (s.conn player ≠ invalidId))
    let s :=
      { s with
        offline := update s.offline (s.id player) (some player)
        online := update s.online (s.id player) none
        conn := update s.conn player invalidId
        touched := update s.touched player s.current }
    s.tryAddPlayerToZombieList player

/-- The end of `agPM_Create` and `agPM_Get`: a new player with its data loaded goes on the lists, offline. -/
def PlayerManager.enter : Except Fault (PlayerManager × Option ℕ) := do
  let player := s.fresh
  let s ← (s.malloc id).tryAddPlayerToZombieList player
  let s :=
    { s with
      conn := update s.conn player invalidId
      offline := update s.offline (s.id player) (some player)
      touched := update s.touched player s.current }
  let s ← s.updatePlayerActiveList player
  .ok (s, some player)

/-- `_player_create`; `modules` says whether memory and the modules of the new player are there. -/
def playerCreateModules (modules : Bool) : Bool := decide (id.toUInt32 ≤ 0x1fffffff) && modules

/-- `agPM_Create`. A player whose modules fail is freed before anything refers to it. -/
def PlayerManager.agPMCreate (modules : Bool) :
    Except Fault (PlayerManager × Option ℕ) :=
  if id < reservedId then .ok (s, none)
  else if playerCreateModules id modules = false then .ok (s, none)
  else { s with notExist := update s.notExist id 0 }.enter id

inductive PlayerLoad
  | noMemory
  | noCharacter
  | loaded

def PlayerManager.agPMGet (load : PlayerLoad) :
    Except Fault (PlayerManager × Option ℕ) :=
  if id < reservedId then .ok (s, none)
  else
    match s.online id with
    | some player => do
      let s ← s.tryRemovePlayerFromZombieList player
      let s ← s.updatePlayerActiveList player
      .ok ({ s with touched := update s.touched player s.current }, some player)
    | none =>
      match s.offline id with
      | some player => do
        let s ← s.tryAddPlayerToZombieList player
        let s ← s.updatePlayerActiveList player
        .ok ({ s with touched := update s.touched player s.current }, some player)
      | none =>
        -- known for at most 5 seconds not to exist
        if s.current ≤ s.notExist id + 5 then .ok (s, none)
        else
          let s := { s with notExist := update s.notExist id 0 }
          match load with
          | .noMemory => .ok (s, none)
          | .noCharacter => .ok ({ s with notExist := update s.notExist id s.current }, none)
          | .loaded => s.enter id

def PlayerManager.agPMRelease : Except Fault PlayerManager := do
  s.access player
  let s :=
    if s.conn player = invalidId then { s with offline := update s.offline (s.id player) none }
    else { s with online := update s.online (s.id player) none }
  assert (decide (s.next player ≠ none))
  let (heap, list) ← dlistRemove s.actives s.activeList player
  let s := { s with prev := heap.prev, next := heap.next, activeList := list }
  let s ← s.tryRemovePlayerFromZombieList player
  .ok { s with alive := update s.alive player false }

/-! ## What the rest of the server calls -/

def PlayerManager.playerGet (load : PlayerLoad) :
    Except Fault (PlayerManager × Option ℕ) := s.agPMGet id load

def PlayerManager.playerCreate (load : PlayerLoad) (modules : Bool) :
    Except Fault (PlayerManager × Option ℕ) := do
  let (s, player) ← s.agPMGet id load
  match player with
  | some _ => .ok (s, none)
  | none => s.agPMCreate id modules

def PlayerManager.playerGetOnline : Except Fault (PlayerManager × Option ℕ) :=
  s.agPMGetOnline id

/-- `player_set_conn`. The call of `agPM_SetOffline` converts the id to 32 bits. -/
def PlayerManager.playerSetConn (playerid : UInt64) (conn : UInt32) (load : PlayerLoad) :
    Except Fault PlayerManager :=
  if conn = invalidId then s.agPMSetOffline playerid.toUInt32
  else do
    let (s, player) ← s.playerGet playerid load
    match player with
    | none => .ok s
    | some player => s.agPMSetOnline player conn

def PlayerManager.playerGetConn (playerid : UInt64) : Except Fault (PlayerManager × UInt32) := do
  let (s, player) ← s.agPMGetOnline playerid
  match player with
  | none => .ok (s, invalidId)
  | some player => .ok (s, s.conn player)

def PlayerManager.playerUnload : Except Fault PlayerManager := s.agPMRelease player

def PlayerManager.unloadZombies (now : ℕ) : ℕ → PlayerManager → Except Fault PlayerManager
  | 0, _ => .error .diverges
  | fuel + 1, s =>
    match s.zombieList with
    | none => .ok s
    | some cr => do
      s.access cr
      if (now : ℤ) - s.zombieTime cr ≤ yqMaxZombieTime then .ok s
      else do
        let s ← s.tryRemovePlayerFromZombieList cr
        let s ← s.playerUnload cr
        unloadZombies now fuel { s with unloaded := s.unloaded ++ [cr] }

/-- The list holds at most as many players as were ever allocated. -/
def PlayerManager.tryUnloadPlayerFromZombieList : Except Fault PlayerManager :=
  PlayerManager.unloadZombies s.current (s.fresh + 1) s

inductive PlayerAct
  | time (now : ℕ)
  | get (id : UInt64) (load : PlayerLoad)
  | create (id : UInt64) (load : PlayerLoad) (modules : Bool)
  | setConn (id : UInt64) (conn : UInt32) (load : PlayerLoad)
  | getOnline (id : UInt64)
  | getConn (id : UInt64)
  | unload (player : ℕ)
  | unloadZombies

def PlayerManager.step : PlayerAct → Except Fault PlayerManager
  | .time now => .ok { s with current := now }
  | .get id load => do
    let (s, _) ← s.playerGet id load
    .ok s
  | .create id load modules => do
    let (s, _) ← s.playerCreate id load modules
    .ok s
  | .setConn id conn load => s.playerSetConn id conn load
  | .getOnline id => do
    let (s, _) ← s.playerGetOnline id
    .ok s
  | .getConn id => do
    let (s, _) ← s.playerGetConn id
    .ok s
  | .unload player => s.playerUnload player
  | .unloadZombies => s.tryUnloadPlayerFromZombieList

/-! ## The invariant -/

structure PlayerManager.Active (s : PlayerManager) (act : List ℕ) : Prop where
  list : DListed s.actives s.activeList act
  live : ∀ p, p ∈ act ↔ s.alive p = true

/-- `zs` is the zombie list, and the table finds its players by their ids. -/
structure PlayerManager.Cache (s : PlayerManager) (zs : List ℕ) : Prop where
  list : DListed s.zombies s.zombieList zs
  table : Indexes s.zombieTable s.id (· ∈ zs)

structure PlayerManager.Maps (s : PlayerManager) : Prop where
  known : ∀ p, s.alive p = true → p < s.fresh
  unique : ∀ p q, s.alive p = true → s.alive q = true → s.id p = s.id q → p = q
  online : Indexes s.online s.id (fun p => s.alive p = true ∧ s.conn p ≠ invalidId)
  offline : Indexes s.offline s.id (fun p => s.alive p = true ∧ s.conn p = invalidId)

structure PlayerManager.Ok (s : PlayerManager) (act zs : List ℕ) : Prop where
  active : s.Active act
  cache : s.Cache zs
  maps : s.Maps
  zombie : ∀ p, p ∈ zs ↔ s.alive p = true ∧ s.conn p = invalidId

/-- The zombies stand in the order of their times, which are the times they were last touched at; and
no player was unloaded twice. -/
structure PlayerManager.Timely (s : PlayerManager) (zs : List ℕ) : Prop where
  sorted : zs.Pairwise (fun p q => s.zombieTime p ≤ s.zombieTime q)
  recent : ∀ p ∈ zs, s.zombieTime p ≤ s.current ∧ s.touched p = s.zombieTime p
  once : s.unloaded.Nodup
  gone : ∀ p ∈ s.unloaded, p < s.fresh ∧ s.alive p = false

variable {s : PlayerManager} {act zs : List ℕ} {p : ℕ}

theorem modulePlayerLoad_ok (now : ℕ) : (modulePlayerLoad now).Ok [] [] := by
  have hnil : ∀ h : DHeap, (∀ a, h.next a = none ∧ h.prev a = none) → DListed h none [] := fun h hnull =>
    ⟨dring_nil, rfl, fun a _ => hnull a⟩
  have hdead : ∀ p, (modulePlayerLoad now).alive p ≠ true := fun p => Bool.false_ne_true
  refine ⟨⟨hnil _ fun a => ⟨rfl, rfl⟩, fun p => ?_⟩,
    ⟨hnil _ fun a => ⟨rfl, rfl⟩, indexes_none fun q => not_mem_nil⟩, ⟨fun p hp => absurd hp (hdead p),
    fun p q hp => absurd hp (hdead p), indexes_none fun q hq => hdead q hq.1, indexes_none fun q hq => hdead q hq.1⟩,
    fun p => ?_⟩
  · exact ⟨fun hp => absurd hp not_mem_nil, fun hp => absurd hp (hdead p)⟩
  · exact ⟨fun hp => absurd hp not_mem_nil, fun hp => absurd hp.1 (hdead p)⟩

namespace PlayerManager

/-! ## The two lists -/

theorem updatePlayerActiveList_ok (hl : DListed s.actives s.activeList act)
    (hlive : ∀ q, q ≠ p → (q ∈ act ↔ s.alive q = true)) (hp : s.alive p = true) :
    ∃ prev next list act', s.updatePlayerActiveList p = .ok { s with prev := prev, next := next, activeList := list } ∧
      ({ s with prev := prev, next := next, activeList := list } : PlayerManager).Active act' := by
  have hrem : ∃ h l, s.leaveActiveList p = .ok (h, l) ∧ DListed h l (act.erase p) ∧ h.alive = s.alive := by
    rw [leaveActiveList]
    by_cases hn : s.next p = none
    · have hout : p ∉ act := fun hmem => hl.linked hmem hn
      rw [if_neg (not_not_intro hn), erase_of_not_mem hout]
      exact ⟨s.actives, s.activeList, rfl, hl, rfl⟩
    · rw [if_pos hn]
      exact hl.remove hp
  obtain ⟨h, l, hrem, hl₁, halive₁⟩ := hrem
  have hout : p ∉ act.erase p := hl.nodup.not_mem_erase
  obtain ⟨h', l', hins, hl₂, halive₂⟩ := hl₁.insertTail (by rw [halive₁]; exact hp) hout
  refine ⟨h'.prev, h'.next, l', act.erase p ++ [p], ?_, hl₂.of_alive (halive₂.trans halive₁), fun q => ?_⟩
  · have hacc : s.access p = .ok () := DHeap.access_ok hp
    simp only [updatePlayerActiveList, hacc, ok_bind, hrem, hins]
  · rw [mem_erase_append]
    by_cases hq : q = p
    · subst hq
      simp only [or_true, true_iff]
      exact hp
    · simp only [hlive q hq, hq, or_false]

def zombied (s : PlayerManager) (p : ℕ) (prev next : ℕ → Option ℕ) (list : Option ℕ) : PlayerManager :=
  { s with
    zombiePrev := prev
    zombieNext := next
    zombieList := list
    zombieTime := update s.zombieTime p s.current
    zombieTable := update s.zombieTable (s.id p) (some p) }

def unzombied (s : PlayerManager) (prev next : ℕ → Option ℕ) (list : Option ℕ) (table : UInt64 → Option ℕ) :
    PlayerManager :=
  { s with zombiePrev := prev, zombieNext := next, zombieList := list, zombieTable := table }

theorem Cache.tryAdd (h : s.Cache zs) (hp : s.alive p = true)
    (huniq : ∀ q ∈ zs, s.id q = s.id p → q = p) :
    ∃ prev next list, s.tryAddPlayerToZombieList p = .ok (s.zombied p prev next list) ∧
      (s.zombied p prev next list).Cache (zs.erase p ++ [p]) := by
  obtain ⟨h₁, l₁, hrem, hl₁, halive₁⟩ := h.list.remove hp
  have hout : p ∉ zs.erase p := h.list.nodup.not_mem_erase
  obtain ⟨h₂, l₂, hins, hl₂, halive₂⟩ := hl₁.insertTail (by rw [halive₁]; exact hp) hout
  have hinit : dlistInit h₁ p = h₁ := dlistInit_of_null (hl₁.unlinked p hout)
  refine ⟨h₂.prev, h₂.next, l₂, ?_, hl₂.of_alive (halive₂.trans halive₁), ?_⟩
  · simp only [tryAddPlayerToZombieList, hrem, ok_bind, hinit, hins, zombied]
  · refine h.table.insert huniq (mem_erase_append.mpr (.inr rfl)) fun q hq => ?_
    rw [mem_erase_append]
    simp only [hq, or_false]

theorem Cache.tryRemove (h : s.Cache zs) (hp : s.alive p = true)
    (huniq : ∀ q ∈ zs, s.id q = s.id p → q = p) :
    ∃ prev next list table, s.tryRemovePlayerFromZombieList p = .ok (s.unzombied prev next list table) ∧
      (s.unzombied prev next list table).Cache (zs.erase p) := by
  by_cases hnil : s.zombieList = none
  · have hzs : zs = [] := List.head?_eq_none_iff.mp (h.list.head ▸ hnil)
    subst hzs
    exact ⟨s.zombiePrev, s.zombieNext, s.zombieList, s.zombieTable, by
      rw [tryRemovePlayerFromZombieList, if_pos hnil, unzombied], h⟩
  · obtain ⟨h₁, l₁, hrem, hl₁, halive₁⟩ := h.list.remove hp
    have hout : p ∉ zs.erase p := h.list.nodup.not_mem_erase
    have hinit : dlistInit h₁ p = h₁ := dlistInit_of_null (hl₁.unlinked p hout)
    refine ⟨h₁.prev, h₁.next, l₁, update s.zombieTable (s.id p) none, ?_, hl₁.of_alive halive₁, ?_⟩
    · simp only [tryRemovePlayerFromZombieList, hnil, if_false, hrem, ok_bind, hinit, unzombied]
    · exact h.table.erase huniq hout fun q hq => (mem_erase_of_ne hq).symm

/-! ## Online and offline -/

structure Relinked (s s' : PlayerManager) : Prop where
  alive : s'.alive = s.alive
  id : s'.id = s.id
  conn : s'.conn = s.conn
  online : s'.online = s.online
  offline : s'.offline = s.offline
  zombieTime : s'.zombieTime = s.zombieTime
  current : s'.current = s.current
  fresh : s'.fresh = s.fresh
  touched : s'.touched = s.touched
  unloaded : s'.unloaded = s.unloaded

theorem Ok.zombie_unique (h : s.Ok act zs) (hp : s.alive p = true) :
    ∀ q ∈ zs, s.id q = s.id p → q = p :=
  fun q hq hid => h.maps.unique q p ((h.zombie q).mp hq).1 hp hid

theorem Ok.visit_online (h : s.Ok act zs) (hp : s.alive p = true) (hconn : s.conn p ≠ invalidId) :
    ∃ s₁ s' act', s.tryRemovePlayerFromZombieList p = .ok s₁ ∧ s₁.updatePlayerActiveList p = .ok s' ∧
      s'.Ok act' zs ∧ s.Relinked s' := by
  obtain ⟨prev, next, list, table, hrem, hc⟩ := h.cache.tryRemove hp (h.zombie_unique hp)
  have hout : p ∉ zs := fun hz => hconn ((h.zombie p).mp hz).2
  rw [erase_of_not_mem hout] at hc
  obtain ⟨prev', next', list', act', hupd, hact⟩ := PlayerManager.updatePlayerActiveList_ok
    (s := s.unzombied prev next list table)
    h.active.list (fun q _ => h.active.live q) hp
  have hm := h.maps
  exact ⟨_, _, act', hrem, hupd,
    ⟨hact, ⟨hc.list, hc.table⟩, ⟨hm.known, hm.unique, hm.online, hm.offline⟩, h.zombie⟩,
    ⟨rfl, rfl, rfl, rfl, rfl, rfl, rfl, rfl, rfl, rfl⟩⟩

theorem Ok.agPMGetOnline (h : s.Ok act zs) (id : UInt64) :
    ∃ s' act', s.agPMGetOnline id = .ok (s', s.online id) ∧ s'.Ok act' zs ∧ s.Relinked s' := by
  cases hid : s.online id with
  | none =>
    exact ⟨s, act, by rw [PlayerManager.agPMGetOnline, hid], h, ⟨rfl, rfl, rfl, rfl, rfl, rfl, rfl, rfl, rfl, rfl⟩⟩
  | some p =>
    obtain ⟨⟨hp, hconn⟩, -⟩ := h.maps.online.mem hid
    obtain ⟨s₁, s', act', hrem, hupd, hok, hsame⟩ := h.visit_online hp hconn
    refine ⟨s', act', ?_, hok, hsame⟩
    simp only [PlayerManager.agPMGetOnline, hid, hrem, ok_bind, hupd]

theorem Timely.sublist {zs' : List ℕ} (h : s.Timely zs) (hsub : zs'.Sublist zs) : s.Timely zs' :=
  ⟨h.sorted.sublist hsub, fun q hq => h.recent q (hsub.subset hq), h.once, h.gone⟩

theorem Timely.relink {s' : PlayerManager} (h : s.Timely zs) (hsame : s.Relinked s') : s'.Timely zs := by
  refine ⟨?_, ?_, ?_, ?_⟩
  · rw [hsame.zombieTime]
    exact h.sorted
  · rw [hsame.zombieTime, hsame.current, hsame.touched]
    exact h.recent
  · rw [hsame.unloaded]
    exact h.once
  · rw [hsame.unloaded, hsame.fresh, hsame.alive]
    exact h.gone

theorem Timely.touch {s' : PlayerManager} (h : s.Timely zs) (hnodup : zs.Nodup)
    (htime : s'.zombieTime = update s.zombieTime p s.current)
    (htouch : s'.touched = update s.touched p s.current) (hcurrent : s'.current = s.current)
    (hunloaded : s'.unloaded = s.unloaded) (hgone : ∀ q ∈ s.unloaded, q < s'.fresh ∧ s'.alive q = false) :
    s'.Timely (zs.erase p ++ [p]) := by
  have hne : ∀ q ∈ zs.erase p, q ∈ zs ∧ q ≠ p := fun q hq =>
    ⟨mem_of_mem_erase hq, (hnodup.mem_erase_iff.mp hq).1⟩
  refine ⟨pairwise_append.mpr ⟨?_, pairwise_singleton .., fun q hq r hr => ?_⟩, fun q hq => ?_, ?_, ?_⟩
  · refine (h.sorted.sublist erase_sublist).imp_of_mem fun {q r} hq hr hqr => ?_
    rw [htime, update_of_ne (hne q hq).2, update_of_ne (hne r hr).2]
    exact hqr
  · rw [mem_singleton.mp hr, htime, update_of_ne (hne q hq).2, update_self]
    exact (h.recent q (hne q hq).1).1
  · rw [htime, htouch, hcurrent]
    by_cases hqp : q = p
    · subst hqp
      simp only [update_self, le_refl, and_self]
    · simp only [update_of_ne hqp]
      rcases mem_append.mp hq with hq | hq
      · exact h.recent q (hne q hq).1
      · exact absurd (mem_singleton.mp hq) hqp
  · rw [hunloaded]
    exact h.once
  · rw [hunloaded]
    exact hgone

theorem Ok.zombie_touched (h : s.Ok act zs) (hp : s.alive p = true ∧ s.conn p = invalidId) (q : ℕ) :
    q ∈ zs.erase p ++ [p] ↔ s.alive q = true ∧ s.conn q = invalidId := by
  rw [mem_erase_append, h.zombie]
  by_cases hq : q = p
  · subst hq
    simp only [or_true, true_iff]
    exact hp
  · simp only [hq, or_false]

theorem Ok.visit_offline (h : s.Ok act zs) (hp : s.alive p = true) (hconn : s.conn p = invalidId) :
    ∃ s₁ s' act', s.tryAddPlayerToZombieList p = .ok s₁ ∧ s₁.updatePlayerActiveList p = .ok s' ∧
      ({ s' with touched := update s'.touched p s'.current } : PlayerManager).Ok act' (zs.erase p ++ [p]) ∧
      (s.Timely zs →
        ({ s' with touched := update s'.touched p s'.current } : PlayerManager).Timely (zs.erase p ++ [p])) ∧
      s'.alive p = true ∧ s'.id = s.id := by
  obtain ⟨prev, next, list, hadd, hc⟩ := h.cache.tryAdd hp (h.zombie_unique hp)
  obtain ⟨prev', next', list', act', hupd, hact⟩ := PlayerManager.updatePlayerActiveList_ok
    (s := s.zombied p prev next list)
    h.active.list (fun q _ => h.active.live q) hp
  have hm := h.maps
  refine ⟨_, _, act', hadd, hupd, ⟨⟨hact.list, hact.live⟩, ⟨hc.list, hc.table⟩, ⟨hm.known, hm.unique, hm.online,
    hm.offline⟩, h.zombie_touched ⟨hp, hconn⟩⟩, fun ht => ?_, hp, rfl⟩
  exact ht.touch h.cache.list.nodup rfl rfl rfl rfl ht.gone

/-! ### A new player -/

theorem malloc_self (s : PlayerManager) (id : UInt64) :
    (s.malloc id).alive s.fresh = true ∧ (s.malloc id).id s.fresh = id :=
  ⟨update_self .., update_self ..⟩

theorem malloc_other (s : PlayerManager) (id : UInt64) {q : ℕ} (hq : q ≠ s.fresh) :
    (s.malloc id).alive q = s.alive q ∧ (s.malloc id).id q = s.id q ∧ (s.malloc id).conn q = s.conn q ∧
      (s.malloc id).zombieTime q = s.zombieTime q :=
  ⟨update_of_ne hq _ _, update_of_ne hq _ _, update_of_ne hq _ _,
    update_of_ne hq _ _⟩

theorem malloc_alive (s : PlayerManager) (id : UInt64) (q : ℕ) :
    (s.malloc id).alive q = true ↔ s.alive q = true ∨ q = s.fresh := by
  by_cases hq : q = s.fresh
  · subst hq
    simp only [(s.malloc_self id).1, or_true]
  · simp only [(s.malloc_other id hq).1, hq, or_false]

theorem Maps.ne_fresh (hm : s.Maps) {q : ℕ} (hq : s.alive q = true) : q ≠ s.fresh :=
  Nat.ne_of_lt (hm.known q hq)

theorem Maps.malloc (hm : s.Maps) {id : UInt64} (hid : ∀ q, s.alive q = true → s.id q ≠ id) :
    ({ s.malloc id with
      conn := update (s.malloc id).conn s.fresh invalidId
      offline := update s.offline ((s.malloc id).id s.fresh) (some s.fresh) } : PlayerManager).Maps := by
  obtain ⟨hlive, hidp⟩ := s.malloc_self id
  have halive : ∀ q, q ≠ s.fresh → (s.malloc id).alive q = s.alive q := fun q hq => (s.malloc_other id hq).1
  have hids : ∀ q, s.alive q = true → (s.malloc id).id q = s.id q := fun q hq =>
    (s.malloc_other id (hm.ne_fresh hq)).2.1
  have hconn : ∀ q, q ≠ s.fresh → update (s.malloc id).conn s.fresh invalidId q = s.conn q := by
    intro q hq
    rw [update_of_ne hq]
    exact (s.malloc_other id hq).2.2.1
  have hnew : ∀ q, s.alive q = true → (s.malloc id).id q ≠ (s.malloc id).id s.fresh := by
    intro q hq
    rw [hidp, hids q hq]
    exact hid q hq
  refine ⟨fun q hq => ?_, fun q r hq hr he => ?_, ?_, ?_⟩
  · rcases (s.malloc_alive id q).mp hq with hq | rfl
    · exact Nat.lt_succ_of_lt (hm.known q hq)
    · exact Nat.lt_succ_self _
  · have he : (s.malloc id).id q = (s.malloc id).id r := he
    rcases (s.malloc_alive id q).mp hq with hq | rfl
    · rcases (s.malloc_alive id r).mp hr with hr | rfl
      · rw [hids q hq, hids r hr] at he
        exact hm.unique q r hq hr he
      · exact absurd he (hnew q hq)
    · rcases (s.malloc_alive id r).mp hr with hr | rfl
      · exact absurd he.symm (hnew r hr)
      · rfl
  · have hold : Indexes s.online (s.malloc id).id (fun q => s.alive q = true ∧ s.conn q ≠ invalidId) :=
      hm.online.congr (fun q => Iff.rfl) fun q hq => hids q hq.1
    refine @Indexes.keep _ _ _ _ _ s.fresh hold ?_ fun q hq => ?_
    · simp only [update_self, ne_eq, not_true_eq_false, and_false, iff_false]
      exact fun hq => hm.ne_fresh hq.1 rfl
    · simp only [halive q hq, hconn q hq]
  · have hold : Indexes s.offline (s.malloc id).id (fun q => s.alive q = true ∧ s.conn q = invalidId) :=
      hm.offline.congr (fun q => Iff.rfl) fun q hq => hids q hq.1
    refine hold.insert (fun q hq he => ?_) ⟨hlive, update_self ..⟩ fun q hq => ?_
    · exact absurd he (hnew q hq.1)
    · simp only [halive q hq, hconn q hq]

theorem Timely.malloc (ht : s.Timely zs) (id : UInt64) (hz : s.fresh ∉ zs) :
    (s.malloc id).Timely zs := by
  have htime : ∀ q ∈ zs, (s.malloc id).zombieTime q = s.zombieTime q := by
    intro q hq
    have hne : q ≠ s.fresh := by
      rintro rfl
      exact hz hq
    exact (s.malloc_other id hne).2.2.2
  refine ⟨ht.sorted.imp_of_mem fun {q r} hq hr hqr => ?_, fun q hq => ?_, ht.once, fun q hq => ?_⟩
  · rw [htime q hq, htime r hr]
    exact hqr
  · rw [htime q hq]
    exact ht.recent q hq
  · obtain ⟨h1, h2⟩ := ht.gone q hq
    exact ⟨Nat.lt_succ_of_lt h1, (s.malloc_other id (Nat.ne_of_lt h1)).1.trans h2⟩

theorem Ok.enter (h : s.Ok act zs) {id : UInt64} (hon : s.online id = none) (hoff : s.offline id = none) :
    ∃ s' act' zs', s.enter id = .ok (s', some s.fresh) ∧ s'.Ok act' zs' ∧ (s.Timely zs → s'.Timely zs') ∧
      s'.alive s.fresh = true ∧ s'.id s.fresh = id := by
  have hm := h.maps
  obtain ⟨hlive, hidp⟩ := s.malloc_self id
  have hid : ∀ q, s.alive q = true → s.id q ≠ id := by
    intro q hq
    by_cases hc : s.conn q = invalidId
    · exact hm.offline.absent hoff ⟨hq, hc⟩
    · exact hm.online.absent hon ⟨hq, hc⟩
  have hz : ∀ q ∈ zs, s.alive q = true := fun q hq => ((h.zombie q).mp hq).1
  have hids : ∀ q ∈ zs, (s.malloc id).id q = s.id q := fun q hq => (s.malloc_other id (hm.ne_fresh (hz q hq))).2.1
  have hzout : s.fresh ∉ zs := fun hmem => hm.ne_fresh (hz _ hmem) rfl
  have haout : s.fresh ∉ act := fun hmem => hm.ne_fresh ((h.active.live _).mp hmem) rfl
  have hc₀ : (s.malloc id).Cache zs :=
    ⟨h.cache.list.alloc hzout, h.cache.table.congr (fun q => Iff.rfl) fun q hq => hids q hq⟩
  obtain ⟨prev, next, list, hadd, hc⟩ := hc₀.tryAdd hlive (fun q hq he => by
    rw [hidp, hids q hq] at he
    exact absurd he (hid q (hz q hq)))
  obtain ⟨prev', next', list', act', hupd, hact⟩ := PlayerManager.updatePlayerActiveList_ok
    (s := { (s.malloc id).zombied s.fresh prev next list with
      conn := update (s.malloc id).conn s.fresh invalidId
      offline := update s.offline ((s.malloc id).id s.fresh) (some s.fresh)
      touched := update s.touched s.fresh s.current })
    (h.active.list.alloc haout) (fun q hq => by
      show q ∈ act ↔ (s.malloc id).alive q = true
      rw [h.active.live q, ← (s.malloc_other id hq).1]) hlive
  have hmaps := hm.malloc hid
  refine ⟨_, act', zs.erase s.fresh ++ [s.fresh], ?_, ⟨hact, ⟨hc.list, hc.table⟩, ⟨hmaps.known, hmaps.unique,
    hmaps.online, hmaps.offline⟩, fun q => ?_⟩, fun ht => ?_, hlive, hidp⟩
  · unfold PlayerManager.enter
    exact bind_ok_iff.mpr ⟨_, hadd, bind_ok_iff.mpr ⟨_, hupd, rfl⟩⟩
  · show _ ↔ (s.malloc id).alive q = true ∧ update (s.malloc id).conn s.fresh invalidId q = invalidId
    rw [mem_erase_append, h.zombie q]
    by_cases hq : q = s.fresh
    · subst hq
      simp only [or_true, hlive, update_self, and_self]
    · obtain ⟨halive, -, hconn, -⟩ := s.malloc_other id hq
      rw [update_of_ne hq, halive, hconn]
      simp only [hq, or_false]
  · have ht₀ := ht.malloc id hzout
    exact ht₀.touch h.cache.list.nodup rfl rfl rfl rfl ht₀.gone

theorem Ok.rest (h : s.Ok act zs) (notExist : UInt64 → ℕ) (touched : ℕ → ℕ) (unloaded : List ℕ) :
    ({ s with notExist := notExist, touched := touched, unloaded := unloaded } : PlayerManager).Ok act zs := by
  have hm := h.maps
  exact ⟨⟨h.active.list, h.active.live⟩, ⟨h.cache.list, h.cache.table⟩, ⟨hm.known, hm.unique, hm.online, hm.offline⟩,
    h.zombie⟩

theorem Timely.set_notExist (h : s.Timely zs) (notExist : UInt64 → ℕ) :
    ({ s with notExist := notExist } : PlayerManager).Timely zs := ⟨h.sorted, h.recent, h.once, h.gone⟩

theorem Ok.touch_online (h : s.Ok act zs) (hconn : s.conn p ≠ invalidId) :
    ({ s with touched := update s.touched p s.current } : PlayerManager).Ok act zs ∧
      (s.Timely zs → ({ s with touched := update s.touched p s.current } : PlayerManager).Timely zs) := by
  refine ⟨h.rest _ _ _, fun ht => ⟨ht.sorted, fun q hq => ?_, ht.once, ht.gone⟩⟩
  have hqp : q ≠ p := by
    rintro rfl
    exact hconn ((h.zombie q).mp hq).2
  simp only [update_of_ne hqp]
  exact ht.recent q hq

/-- `agPM_Get` returns a loaded player with the id it was asked for; where it returns none, no player
with this id is loaded. -/
theorem Ok.agPMGet (h : s.Ok act zs) (id : UInt64) (load : PlayerLoad) :
    ∃ s' r act' zs', s.agPMGet id load = .ok (s', r) ∧ s'.Ok act' zs' ∧ (s.Timely zs → s'.Timely zs') ∧
      (∀ p, r = some p → s'.alive p = true ∧ s'.id p = id) ∧
      (r = none → ¬ id < PlayerManager.reservedId → s'.online id = none ∧ s'.offline id = none) := by
  by_cases hres : id < PlayerManager.reservedId
  · refine ⟨s, none, act, zs, by rw [PlayerManager.agPMGet, if_pos hres], h, fun ht => ht, fun p hp => ?_, fun _ hn => ?_⟩
    · cases hp
    · exact absurd hres hn
  cases hon : s.online id with
  | some p =>
    obtain ⟨⟨hp, hconn⟩, hid⟩ := h.maps.online.mem hon
    obtain ⟨s₁, s', act', hrem, hupd, hok, hsame⟩ := h.visit_online hp hconn
    obtain ⟨hok', htime⟩ := hok.touch_online (by rw [hsame.conn]; exact hconn)
    refine ⟨_, some p, act', zs, ?_, hok', fun ht => htime (ht.relink hsame), fun q hq => ?_, fun hr => ?_⟩
    · rw [PlayerManager.agPMGet, if_neg hres]
      simp only [hon, hrem, ok_bind, hupd]
    · obtain rfl := Option.some.inj hq
      exact ⟨(congrFun hsame.alive p).trans hp, (congrFun hsame.id p).trans hid⟩
    · cases hr
  | none =>
    cases hoff : s.offline id with
    | some p =>
      obtain ⟨⟨hp, hconn⟩, hid⟩ := h.maps.offline.mem hoff
      obtain ⟨s₁, s', act', hadd, hupd, hok, htime, hp', hid'⟩ := h.visit_offline hp hconn
      refine ⟨_, some p, act', _, ?_, hok, htime, fun q hq => ?_, fun hr => ?_⟩
      · rw [PlayerManager.agPMGet, if_neg hres]
        simp only [hon, hoff, hadd, ok_bind, hupd]
      · obtain rfl := Option.some.inj hq
        exact ⟨hp', (congrFun hid' p).trans hid⟩
      · cases hr
    | none =>
      by_cases hrecent : s.current ≤ s.notExist id + 5
      · refine ⟨s, none, act, zs, ?_, h, fun ht => ht, fun p hp => ?_, fun _ _ => ⟨hon, hoff⟩⟩
        · rw [PlayerManager.agPMGet, if_neg hres]
          simp only [hon, hoff, hrecent, if_true]
        · cases hp
      · have h₁ := h.rest (update s.notExist id 0) s.touched s.unloaded
        cases load with
        | noMemory =>
          refine ⟨_, none, act, zs, ?_, h₁, fun ht => ht.set_notExist _, fun p hp => ?_, fun _ _ => ⟨hon, hoff⟩⟩
          · rw [PlayerManager.agPMGet, if_neg hres]
            simp only [hon, hoff, hrecent, if_false]
          · cases hp
        | noCharacter =>
          have h₂ := h.rest (update (update s.notExist id 0) id s.current) s.touched s.unloaded
          refine ⟨_, none, act, zs, ?_, h₂, fun ht => (ht.set_notExist _).set_notExist _, fun p hp => ?_,
            fun _ _ => ⟨hon, hoff⟩⟩
          · rw [PlayerManager.agPMGet, if_neg hres]
            simp only [hon, hoff, hrecent, if_false]
          · cases hp
        | loaded =>
          obtain ⟨s', act', zs', hent, hok, htime, hp', hid'⟩ := h₁.enter hon hoff
          refine ⟨s', some s.fresh, act', zs', ?_, hok, fun ht => htime (ht.set_notExist _), fun q hq => ?_, fun hr => ?_⟩
          · rw [PlayerManager.agPMGet, if_neg hres]
            simp only [hon, hoff, hrecent, if_false]
            exact hent
          · obtain rfl := Option.some.inj hq
            exact ⟨hp', hid'⟩
          · cases hr

theorem Ok.agPMCreate (h : s.Ok act zs) {id : UInt64} (modules : Bool)
    (hfree : ¬ id < PlayerManager.reservedId → s.online id = none ∧ s.offline id = none) :
    ∃ s' r act' zs', s.agPMCreate id modules = .ok (s', r) ∧ s'.Ok act' zs' ∧ (s.Timely zs → s'.Timely zs') := by
  by_cases hres : id < PlayerManager.reservedId
  · exact ⟨s, none, act, zs, by rw [PlayerManager.agPMCreate, if_pos hres], h, fun ht => ht⟩
  · by_cases hmod : playerCreateModules id modules = false
    · exact ⟨s, none, act, zs, by rw [PlayerManager.agPMCreate, if_neg hres, if_pos hmod], h, fun ht => ht⟩
    · obtain ⟨hon, hoff⟩ := hfree hres
      have h₁ := h.rest (update s.notExist id 0) s.touched s.unloaded
      obtain ⟨s', act', zs', hent, hok, htime, -⟩ := h₁.enter hon hoff
      refine ⟨s', some s.fresh, act', zs', ?_, hok, fun ht => htime (ht.set_notExist _)⟩
      rw [PlayerManager.agPMCreate, if_neg hres, if_neg hmod]
      exact hent

theorem Maps.setOnline (hm : s.Maps) (hp : s.alive p = true) {conn : UInt32} (hconn : conn ≠ invalidId) :
    ∃ on off, (if s.conn p = invalidId then { s with
        online := update s.online (s.id p) (some p)
        offline := update s.offline (s.id p) none } else s) = { s with online := on, offline := off } ∧
      ({ s with online := on, offline := off, conn := update s.conn p conn } : PlayerManager).Maps := by
  have hother : ∀ q, q ≠ p → update s.conn p conn q = s.conn q := fun q hq => update_of_ne hq _ _
  have hself : update s.conn p conn p ≠ invalidId := by rwa [update_self]
  have huniq : ∀ q, s.alive q = true → s.id q = s.id p → q = p := fun q hq => hm.unique q p hq hp
  by_cases hc : s.conn p = invalidId
  · refine ⟨_, _, if_pos hc, hm.known, hm.unique, ?_, ?_⟩
    · exact hm.online.insert (fun q hq => huniq q hq.1) ⟨hp, hself⟩ fun q hq => by simp only [hother q hq]
    · exact hm.offline.erase (fun q hq => huniq q hq.1) (fun hq => hself hq.2) fun q hq => by simp only [hother q hq]
  · refine ⟨s.online, s.offline, if_neg hc, hm.known, hm.unique, @Indexes.keep _ _ _ _ _ p hm.online ?_ fun q hq => ?_,
      @Indexes.keep _ _ _ _ _ p hm.offline ?_ fun q hq => ?_⟩
    · simp only [hp, hc, hself, ne_eq, not_false_eq_true]
    · simp only [hother q hq]
    · simp only [hc, hself, and_false]
    · simp only [hother q hq]

theorem Ok.agPMSetOnline (h : s.Ok act zs) (hp : s.alive p = true) {conn : UInt32}
    (hconn : conn ≠ invalidId) :
    ∃ s', s.agPMSetOnline p conn = .ok s' ∧ s'.Ok act (zs.erase p) ∧ (s.Timely zs → s'.Timely (zs.erase p)) := by
  have hacc : s.access p = .ok () := DHeap.access_ok hp
  have hself : update s.conn p conn p ≠ invalidId := by rwa [update_self]
  obtain ⟨on, off, hif, hm⟩ := h.maps.setOnline hp hconn
  have hc₀ : ({ s with online := on, offline := off, conn := update s.conn p conn } : PlayerManager).Cache zs :=
    ⟨h.cache.list, h.cache.table⟩
  obtain ⟨prev, next, list, table, hrem, hc⟩ := hc₀.tryRemove hp (h.zombie_unique hp)
  have hset : s.agPMSetOnline p conn = PlayerManager.tryRemovePlayerFromZombieList
      { s with online := on, offline := off, conn := update s.conn p conn } p := by
    simp only [PlayerManager.agPMSetOnline, hacc, ok_bind, hif]
  refine ⟨_, hset.trans hrem, ⟨⟨h.active.list, h.active.live⟩, hc, ⟨hm.known, hm.unique, hm.online, hm.offline⟩,
    fun q => ?_⟩, fun ht => ?_⟩
  · rw [h.cache.list.nodup.mem_erase_iff, h.zombie]
    by_cases hq : q = p
    · subst hq
      simp only [ne_eq, not_true_eq_false, false_and, false_iff, not_and]
      exact fun _ => hself
    · simp only [unzombied, update_of_ne hq, ne_eq, hq, not_false_eq_true, true_and]
  · have ht' := ht.sublist (erase_sublist (a := p))
    exact ⟨ht'.sorted, ht'.recent, ht'.once, ht'.gone⟩

theorem Ok.agPMSetOffline (h : s.Ok act zs) (id : UInt32) :
    ∃ s' act' zs', s.agPMSetOffline id = .ok s' ∧ s'.Ok act' zs' ∧ (s.Timely zs → s'.Timely zs') ∧
      s'.online = update s.online id.toUInt64 none := by
  obtain ⟨s₁, act₁, hget, h₁, hsame⟩ := h.agPMGetOnline id.toUInt64
  cases hon : s.online id.toUInt64 with
  | none =>
    rw [hon] at hget
    refine ⟨s₁, act₁, zs, ?_, h₁, fun ht => ht.relink hsame, ?_⟩
    · simp only [PlayerManager.agPMSetOffline, hget, ok_bind]
    · rw [← hon, Function.update_eq_self, hsame.online]
  | some p =>
    rw [hon] at hget
    have hm := h₁.maps
    rw [← hsame.online] at hon
    obtain ⟨⟨hp, hconn⟩, hid⟩ := hm.online.mem hon
    have hother : ∀ q, q ≠ p → update s₁.conn p invalidId q = s₁.conn q := fun q hq =>
      update_of_ne hq _ _
    have hout : p ∉ zs := fun hz => hconn ((h₁.zombie p).mp hz).2
    have hc₀ : ({ s₁ with
        offline := update s₁.offline (s₁.id p) (some p)
        online := update s₁.online (s₁.id p) none
        conn := update s₁.conn p invalidId
        touched := update s₁.touched p s₁.current } : PlayerManager).Cache zs := ⟨h₁.cache.list, h₁.cache.table⟩
    obtain ⟨prev, next, list, hadd, hc⟩ := hc₀.tryAdd hp (h₁.zombie_unique hp)
    have hset : s.agPMSetOffline id = PlayerManager.tryAddPlayerToZombieList { s₁ with
        offline := update s₁.offline (s₁.id p) (some p)
        online := update s₁.online (s₁.id p) none
        conn := update s₁.conn p invalidId
        touched := update s₁.touched p s₁.current } p := by
      have hassert : assert (decide (s₁.conn p ≠ invalidId)) = .ok () := assert_of (decide_eq_true hconn)
      simp only [PlayerManager.agPMSetOffline, hget, ok_bind, hassert]
    refine ⟨_, act₁, zs.erase p ++ [p], hset.trans hadd, ⟨⟨h₁.active.list, h₁.active.live⟩, hc,
      ⟨hm.known, hm.unique, ?_, ?_⟩, fun q => ?_⟩, fun ht => ?_, ?_⟩
    · refine hm.online.erase (fun q hq => hm.unique q p hq.1 hp) (fun hq => ?_) fun q hq => by
        simp only [zombied, hother q hq]
      exact hq.2 (update_self ..)
    · exact hm.offline.insert (fun q hq => hm.unique q p hq.1 hp) ⟨hp, update_self ..⟩ fun q hq => by
        simp only [zombied, hother q hq]
    · rw [mem_erase_append, h₁.zombie]
      by_cases hq : q = p
      · subst hq
        simp only [zombied, hp, or_true, update_self, and_self]
      · simp only [zombied, hother q hq, hq, or_false]
    · have ht₁ := ht.relink hsame
      exact ht₁.touch h₁.cache.list.nodup rfl rfl rfl rfl ht₁.gone
    · show update s₁.online (s₁.id p) none = _
      rw [hid, hsame.online]

/-! ## Releasing -/

theorem Maps.release (hm : s.Maps) (hp : s.alive p = true) :
    ∃ on off, (if s.conn p = invalidId then { s with offline := update s.offline (s.id p) none }
      else { s with online := update s.online (s.id p) none }) = { s with online := on, offline := off } ∧
      ({ s with online := on, offline := off, alive := update s.alive p false } : PlayerManager).Maps := by
  have hother : ∀ q, q ≠ p → update s.alive p false q = s.alive q := fun q hq => update_of_ne hq _ _
  have hself : update s.alive p false p ≠ true := by
    rw [update_self]
    exact Bool.false_ne_true
  have hold : ∀ q, update s.alive p false q = true → s.alive q = true := by
    intro q hq
    have hqp : q ≠ p := by
      rintro rfl
      exact hself hq
    exact (hother q hqp).symm.trans hq
  have huniq : ∀ q, s.alive q = true → s.id q = s.id p → q = p := fun q hq => hm.unique q p hq hp
  have hknown : ∀ q, update s.alive p false q = true → q < s.fresh := fun q hq => hm.known q (hold q hq)
  have hdiff : ∀ q r, update s.alive p false q = true → update s.alive p false r = true →
      s.id q = s.id r → q = r := fun q r hq hr => hm.unique q r (hold q hq) (hold r hr)
  by_cases hcp : s.conn p = invalidId
  · refine ⟨s.online, update s.offline (s.id p) none, if_pos hcp, hknown, hdiff,
      @Indexes.keep _ _ _ _ _ p hm.online ?_ fun q hq => by simp only [hother q hq],
      hm.offline.erase (fun q hq => huniq q hq.1) (fun hq => hself hq.1) fun q hq => by simp only [hother q hq]⟩
    simp only [hcp, ne_eq, not_true_eq_false, and_false]
  · refine ⟨update s.online (s.id p) none, s.offline, if_neg hcp, hknown, hdiff,
      hm.online.erase (fun q hq => huniq q hq.1) (fun hq => hself hq.1) fun q hq => by simp only [hother q hq],
      @Indexes.keep _ _ _ _ _ p hm.offline ?_ fun q hq => by simp only [hother q hq]⟩
    simp only [hcp, and_false]

theorem Timely.free (h : s.Timely zs) (p : ℕ) :
    ({ s with alive := update s.alive p false } : PlayerManager).Timely zs := by
  refine ⟨h.sorted, h.recent, h.once, fun q hq => ⟨(h.gone q hq).1, ?_⟩⟩
  exact DHeap.free_dead (h := s.actives) (h.gone q hq).2

/-- A released player is nowhere any more; the others stay where they are. It need not be on the
zombie list, from which `try_unload_player_from_zombie_list` has taken it already. -/
theorem agPMRelease_ok (hact : s.Active act) (hc : s.Cache zs) (hm : s.Maps) (hp : s.alive p = true)
    (hz : ∀ q, q ≠ p → (q ∈ zs ↔ s.alive q = true ∧ s.conn q = invalidId)) :
    ∃ s', s.agPMRelease p = .ok s' ∧ s'.Ok (act.erase p) (zs.erase p) ∧ (s.Timely zs → s'.Timely (zs.erase p)) ∧
      s'.alive = update s.alive p false ∧ s'.conn = s.conn ∧ s'.touched = s.touched ∧ s'.current = s.current ∧
      s'.unloaded = s.unloaded ∧ s'.fresh = s.fresh := by
  have hacc : s.access p = .ok () := DHeap.access_ok hp
  have hother : ∀ q, q ≠ p → update s.alive p false q = s.alive q := fun q hq => update_of_ne hq _ _
  have hself : update s.alive p false p ≠ true := by
    rw [update_self]
    exact Bool.false_ne_true
  obtain ⟨on, off, hif, hm'⟩ := hm.release hp
  obtain ⟨heap, list, hdrop, hl, halive⟩ := hact.list.remove hp
  have hc₀ : ({ s with online := on, offline := off, prev := heap.prev, next := heap.next, activeList := list } :
      PlayerManager).Cache zs := ⟨hc.list, hc.table⟩
  obtain ⟨zprev, znext, zlist, table, hrem, hc₁⟩ := hc₀.tryRemove hp (fun q hq he => by
    by_contra hne
    exact hne (hm.unique q p ((hz q hne).mp hq).1 hp he))
  have hout : p ∉ act.erase p := hact.list.nodup.not_mem_erase
  have hzout : p ∉ zs.erase p := hc.list.nodup.not_mem_erase
  have hrel : s.agPMRelease p = .ok { s with
      alive := update s.alive p false
      online := on
      offline := off
      prev := heap.prev
      next := heap.next
      activeList := list
      zombiePrev := zprev
      zombieNext := znext
      zombieList := zlist
      zombieTable := table } := by
    have hassert : assert (decide (s.next p ≠ none)) = .ok () :=
      assert_of (decide_eq_true (hact.list.linked ((hact.live p).mpr hp)))
    unfold PlayerManager.agPMRelease
    rw [hif]
    exact bind_ok_iff.mpr ⟨(), hacc, bind_ok_iff.mpr ⟨(), hassert, bind_ok_iff.mpr ⟨(heap, list), hdrop,
      bind_ok_iff.mpr ⟨_, hrem, rfl⟩⟩⟩⟩
  refine ⟨_, hrel, ⟨⟨(hl.of_alive halive).free hout, fun q => ?_⟩, ⟨hc₁.list.free hzout, hc₁.table⟩,
    ⟨hm'.known, hm'.unique, hm'.online, hm'.offline⟩, fun q => ?_⟩, fun ht => ?_, rfl, rfl, rfl, rfl, rfl, rfl⟩
  · rw [hact.list.nodup.mem_erase_iff, hact.live]
    by_cases hq : q = p
    · subst hq
      simp only [ne_eq, not_true_eq_false, false_and, false_iff]
      exact hself
    · simp only [ne_eq, hq, not_false_eq_true, true_and]
      exact (hother q hq) ▸ Iff.rfl
  · rw [hc.list.nodup.mem_erase_iff]
    show _ ↔ update s.alive p false q = true ∧ _
    by_cases hq : q = p
    · subst hq
      simp only [ne_eq, not_true_eq_false, false_and, update_self, Bool.false_eq_true]
    · simp only [ne_eq, hq, not_false_eq_true, true_and, hz q hq, hother q hq]
  · have ht' := (ht.sublist (erase_sublist (a := p))).free p
    exact ⟨ht'.sorted, ht'.recent, ht'.once, ht'.gone⟩

theorem Ok.agPMRelease (h : s.Ok act zs) (hp : s.alive p = true) :
    ∃ s', s.agPMRelease p = .ok s' ∧ s'.Ok (act.erase p) (zs.erase p) ∧ (s.Timely zs → s'.Timely (zs.erase p)) := by
  obtain ⟨s', hrel, hok, htime, -⟩ := PlayerManager.agPMRelease_ok h.active h.cache h.maps hp (fun q _ => h.zombie q)
  exact ⟨s', hrel, hok, htime⟩

theorem Ok.unload_first {cr : ℕ} (h : s.Ok act (cr :: zs)) :
    ∃ s₁ s', s.tryRemovePlayerFromZombieList cr = .ok s₁ ∧ s₁.playerUnload cr = .ok s' ∧ s'.Ok (act.erase cr) zs ∧
      (s.Timely (cr :: zs) → s'.Timely zs) ∧ s'.alive = update s.alive cr false ∧ s'.conn = s.conn ∧
      s'.touched = s.touched ∧ s'.current = s.current ∧ s'.unloaded = s.unloaded ∧ s'.fresh = s.fresh := by
  have hp : s.alive cr = true := ((h.zombie cr).mp (mem_cons_self ..)).1
  obtain ⟨prev, next, list, table, hrem, hc⟩ := h.cache.tryRemove hp (h.zombie_unique hp)
  rw [erase_cons_head] at hc
  have hm := h.maps
  have hout : cr ∉ zs := (nodup_cons.mp h.cache.list.nodup).1
  obtain ⟨s', hrel, hok, htime, hsame⟩ := PlayerManager.agPMRelease_ok
    (s := s.unzombied prev next list table)
    ⟨h.active.list, h.active.live⟩ hc ⟨hm.known, hm.unique, hm.online, hm.offline⟩ hp (fun q hq => by
      refine Iff.trans ?_ (h.zombie q)
      simp only [mem_cons, hq, false_or])
  rw [erase_of_not_mem hout] at hok htime
  refine ⟨_, s', hrem, hrel, hok, fun ht => htime ?_, hsame⟩
  have ht' := ht.sublist (sublist_cons_self cr zs)
  exact ⟨ht'.sorted, ht'.recent, ht'.once, ht'.gone⟩

theorem Timely.log (h : s.Timely zs) (hnew : p ∉ s.unloaded) (hfresh : p < s.fresh)
    (hdead : s.alive p = false) : ({ s with unloaded := s.unloaded ++ [p] } : PlayerManager).Timely zs := by
  refine ⟨h.sorted, h.recent, ?_, fun q hq => ?_⟩
  · exact nodup_append.mpr ⟨h.once, by simp, fun a ha b hb => by
      rw [mem_singleton.mp hb]
      exact fun he => hnew (he ▸ ha)⟩
  · rcases mem_append.mp hq with hq | hq
    · exact h.gone q hq
    · rw [mem_singleton.mp hq]
      exact ⟨hfresh, hdead⟩

theorem Ok.unload_zombies (zs : List ℕ) : ∀ {s : PlayerManager} {act : List ℕ} {fuel : ℕ}, s.Ok act zs →
    zs.length < fuel →
    ∃ s' act' zs' ps, PlayerManager.unloadZombies s.current fuel s = .ok s' ∧ s'.Ok act' zs' ∧
      s'.unloaded = s.unloaded ++ ps ∧ (∀ p, s'.alive p = true ↔ s.alive p = true ∧ p ∉ ps) ∧
      (s.Timely zs → s'.Timely zs' ∧ ∀ p ∈ ps, s.alive p = true ∧ s.conn p = invalidId ∧
        s.touched p + yqMaxZombieTime < s.current) := by
  induction zs with
  | nil =>
    intro s act fuel h hfuel
    obtain ⟨n, rfl⟩ := exists_succ_of_lt hfuel
    have hnil : s.zombieList = none := h.cache.list.head
    refine ⟨s, act, [], [], ?_, h, by simp, by simp, fun ht => ⟨ht, fun p hp => ?_⟩⟩
    · rw [PlayerManager.unloadZombies, hnil]
    · cases hp
  | cons cr zs ih =>
    intro s act fuel h hfuel
    obtain ⟨n, rfl⟩ := exists_succ_of_lt hfuel
    have hhead : s.zombieList = some cr := h.cache.list.head
    obtain ⟨hp, hconn⟩ := (h.zombie cr).mp (mem_cons_self ..)
    have hacc : s.access cr = .ok () := DHeap.access_ok hp
    by_cases hold : (s.current : ℤ) - s.zombieTime cr ≤ yqMaxZombieTime
    · refine ⟨s, act, cr :: zs, [], ?_, h, by simp, by simp, fun ht => ⟨ht, fun p hp => ?_⟩⟩
      · simp only [PlayerManager.unloadZombies, hhead, hacc, ok_bind, hold, if_true]
      · cases hp
    · obtain ⟨s₁, s₂, hrem, hunl, h₂, htime, halive, hconn₂, htouched, hcurrent, hunloaded, hfresh⟩ := h.unload_first
      -- the loop goes on with the player in the log
      have h₃ : ({ s₂ with unloaded := s₂.unloaded ++ [cr] } : PlayerManager).Ok (act.erase cr) zs := h₂.rest _ _ _
      have hdead : s₂.alive cr = false := by rw [halive, update_self]
      have hlen : zs.length < n := by simp only [length_cons] at hfuel; omega
      obtain ⟨s', act', zs', ps, hloop, hok, hps, hlive, hrest⟩ := ih h₃ hlen
      refine ⟨s', act', zs', cr :: ps, ?_, hok, ?_, fun p => ?_, fun ht => ?_⟩
      · simp only [PlayerManager.unloadZombies, hhead, hacc, ok_bind, hold, if_false, hrem, hunl]
        rw [← hcurrent]
        exact hloop
      · rw [hps]
        show s₂.unloaded ++ [cr] ++ ps = _
        rw [hunloaded, append_assoc]
        rfl
      · rw [hlive p, mem_cons, not_or]
        show s₂.alive p = true ∧ p ∉ ps ↔ _
        by_cases hpc : p = cr
        · subst hpc
          simp only [hdead, Bool.false_eq_true, false_and, not_true_eq_false, and_false]
        · rw [halive, update_of_ne hpc]
          simp only [hpc, not_false_eq_true, true_and]
      · have ht₂ := htime ht
        have hnew : cr ∉ s₂.unloaded := by
          intro hmem
          rw [hunloaded] at hmem
          rw [(ht.gone cr hmem).2] at hp
          cases hp
        obtain ⟨ht', hall⟩ := hrest (ht₂.log hnew (by rw [hfresh]; exact h.maps.known cr hp) hdead)
        refine ⟨ht', fun p hmem => ?_⟩
        rcases mem_cons.mp hmem with rfl | hmem
        · have htouch := (ht.recent p (mem_cons_self ..)).2
          refine ⟨hp, hconn, ?_⟩
          rw [htouch]
          omega
        · obtain ⟨h1, h2, h3⟩ := hall p hmem
          have hpc : p ≠ cr := by
            rintro rfl
            rw [hdead] at h1
            cases h1
          rw [halive, update_of_ne hpc] at h1
          rw [hconn₂] at h2
          rw [htouched, hcurrent] at h3
          exact ⟨h1, h2, h3⟩

end PlayerManager

end CServer.World
