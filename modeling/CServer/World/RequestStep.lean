import CServer.World.Dispatch
import CServer.Framework.AmfWire

/-! # What `process_request` and `process_next_request` do

`processRequest` has three outcomes, told apart by `Passes` and `Overruns`; `processNextRequest` has
one more for a busy request. A request that passes leaves the queue unless its function defers it or
unloads the player.
-/
namespace CServer.World
open CServer.Lib CServer.Framework Function

variable {σ : Type} (env : Env σ)

/-! ## Looking up a player -/

section Lookup

variable {s : Server σ} {pid : ℕ} {p : Player}

@[simp] theorem setPlayer_players_self (s : Server σ) (pid : ℕ) (p : Option Player) :
    (s.setPlayer pid p).players pid = p := update_self ..

theorem setPlayer_players_of_ne (s : Server σ) {pid other : ℕ} (h : other ≠ pid) (p : Option Player) :
    (s.setPlayer pid p).players other = s.players other := update_of_ne h ..

theorem playerGet_of_loaded (h0 : pid ≠ 0) (hp : s.players pid = some p) :
    playerGet env s pid = some p := by
  have h : ¬ pid < reservedId := by simp only [reservedId]; omega
  rw [playerGet, if_neg h, hp]

theorem playerGet_of_unloaded (hp : s.players pid = none) :
    playerGet env s pid = none ∨ playerGet env s pid = some ⟨none, []⟩ := by
  rw [playerGet, hp]
  split
  · exact .inl rfl
  · dsimp only
    split
    · exact .inr rfl
    · exact .inl rfl

theorem loadPlayer_of_loaded (h0 : pid ≠ 0) (hp : s.players pid = some p) : loadPlayer env s pid = s := by
  rw [loadPlayer, playerGet_of_loaded env h0 hp]
  simp only [Server.setPlayer, ← hp, update_eq_self]

theorem loadPlayer_of_unloaded (hp : s.players pid = none) :
    (loadPlayer env s pid).players pid = none ∨ (loadPlayer env s pid).players pid = some ⟨none, []⟩ := by
  rw [loadPlayer]
  rcases playerGet_of_unloaded env hp with h | h <;> rw [h]
  · exact .inl hp
  · exact .inr (setPlayer_players_self ..)

theorem playerSetConn_of_known {conn : ℕ} (hp : playerGet env s pid = some p) :
    playerSetConn env s pid conn = s.setPlayer pid (some ⟨some conn, p.queue⟩) := by
  rw [playerSetConn, hp]

theorem playerSetConn_of_unknown {conn : ℕ} (hp : playerGet env s pid = none) :
    playerSetConn env s pid conn = s := by
  rw [playerSetConn, hp]

theorem playerSetConn_rest (s : Server σ) (pid conn : ℕ) : (playerSetConn env s pid conn).rest = s.rest := by
  rw [playerSetConn]
  split <;> rfl

theorem requestQueueFront_of_loaded (h0 : pid ≠ 0) (hp : s.players pid = some p) :
    requestQueueFront env s pid = p.queue.head? := by
  rw [requestQueueFront, playerGet_of_loaded env h0 hp]

theorem requestQueuePop_of_loaded (h0 : pid ≠ 0) (hp : s.players pid = some p) :
    requestQueuePop env s pid = s.setPlayer pid (some { p with queue := p.queue.tail }) := by
  rw [requestQueuePop, playerGet_of_loaded env h0 hp]

theorem requestQueueFront_of_unloaded (hp : s.players pid = none) : requestQueueFront env s pid = none := by
  rw [requestQueueFront]
  rcases playerGet_of_unloaded env hp with h | h
  · rw [h]
  · rw [h]
    rfl

end Lookup

/-! ## `request_queue_push` -/

variable (s : Server σ)

def Server.push (pid : ℕ) (p : Player) (r : Request) : Server σ :=
  { s with
    players := update s.players pid
      (some { p with queue := p.queue ++ [{ r with busy := false, serial := s.pushed pid }] })
    pushed := update s.pushed pid (s.pushed pid + 1) }

section Push

variable {s : Server σ} {pid : ℕ} {p : Player} {r : Request} {length avail : ℕ}

theorem requestQueuePush_of_body (h0 : pid ≠ 0) (hp : s.players pid = some p) (hl : length ≠ 0)
    (ha : length ≤ avail) : requestQueuePush env s pid r length avail = .ok (s.push pid p r) := by
  have ha' : ¬ avail < length := by omega
  rw [requestQueuePush, playerGet_of_loaded env h0 hp]
  simp only [decide_eq_true hl, assert_true, ok_bind, ha', if_false]
  rfl

theorem requestQueuePush_ok (h0 : pid ≠ 0) (hp : s.players pid = some p) {s' : Server σ}
    (h : requestQueuePush env s pid r length avail = .ok s') :
    length ≠ 0 ∧ length ≤ avail ∧ s' = s.push pid p r := by
  have hl : length ≠ 0 := by
    rintro rfl
    rw [requestQueuePush, playerGet_of_loaded env h0 hp] at h
    cases h
  have ha : length ≤ avail := by
    by_contra ha
    rw [requestQueuePush, playerGet_of_loaded env h0 hp] at h
    simp only [decide_eq_true hl, assert_true, ok_bind, Nat.lt_of_not_le ha, if_true] at h
    cases h
  rw [requestQueuePush_of_body env h0 hp hl ha] at h
  exact ⟨hl, ha, (Except.ok.inj h).symm⟩

theorem requestQueuePush_of_unknown (hp : playerGet env s pid = none) :
    requestQueuePush env s pid r length avail = .ok s := by
  rw [requestQueuePush, hp]

end Push

/-! ## `process_request` -/

/-- The request is handed on to the command table: it is in protobuf, or its body is one AMF array and
nothing else. -/
def Passes (r : Request) (beyond : Mem) : Prop :=
  r.flag = 2 ∨
    r.flag = 1 ∧ ∃ child, amfRead env.stale beyond r.data = .ok (some (.array child, r.data.length))

def Overruns (r : Request) : Prop := r.flag = 1 ∧ Overfull r.data

def requestCall (conn pid : ℕ) (r : Request) (beyond : Mem) : Call :=
  ⟨conn, pid, r.cmd, r.flag,
    if r.flag = 1 then
      match amfRead env.stale beyond r.data with
      | .ok (some (v, _)) => some v
      | _ => none
    else none,
    r.data⟩

section Request

variable {env} {s : Server σ} {conn pid : ℕ} {r : Request} {beyond : Mem}

theorem processRequest_of_passes (h : Passes env r beyond) :
    processRequest env s conn pid r beyond = (do
      let (effects, rest) ← env.handle s.rest (requestCall env conn pid r beyond)
      return (0, s.affect effects rest)) := by
  rcases h with h2 | ⟨h1, child, hr⟩
  · simp [processRequest, requestCall, dispatchCommand, h2]
  · simp [processRequest, requestCall, dispatchCommand, h1, hr]

theorem Overruns.processRequest (h : Overruns r) (s : Server σ) (conn pid : ℕ) (beyond : Mem) :
    ∃ e, World.processRequest env s conn pid r beyond = .error e := by
  obtain ⟨h1, hf⟩ := h
  cases hr : amfRead env.stale beyond r.data with
  | ok out => exact absurd hf ((amfRead_ok_iff env.stale beyond r.data).1 ⟨out, hr⟩)
  | error e => exact ⟨e, by simp [World.processRequest, h1, hr, bind, Except.bind]⟩

theorem processRequest_of_fails (h : ¬ Passes env r beyond) (hf : ¬ Overruns r) :
    processRequest env s conn pid r beyond = .ok (-1, s) := by
  have h2 : r.flag ≠ 2 := fun h2 => h (.inl h2)
  by_cases h1 : r.flag = 1
  · obtain ⟨out, hr⟩ := (amfRead_ok_iff env.stale beyond r.data).2 fun hd => hf ⟨h1, hd⟩
    rw [processRequest, if_pos h1, hr, ok_bind]
    rcases out with - | ⟨v, readLen⟩
    · rfl
    · by_cases hl : readLen = r.data.length
      · cases v with
        | array child => exact absurd (.inr ⟨h1, child, by rw [hr, hl]⟩) h
        | _ => simp [hl]
      · simp [hl]
  · rw [processRequest, if_neg h1, if_neg h2]

theorem affect_players (s : Server σ) (effects : ℕ → Effect) (rest : σ) (pid : ℕ) :
    (s.affect effects rest).players pid = (effects pid).apply (s.players pid) := rfl

end Request

/-! ## `process_next_request` -/

def Server.hand (pid serial : ℕ) : Server σ :=
  { s with handed := update s.handed pid (s.handed pid ++ [serial]) }

@[simp] theorem hand_players (pid serial : ℕ) : (s.hand pid serial).players = s.players := rfl

@[simp] theorem hand_rest (pid serial : ℕ) : (s.hand pid serial).rest = s.rest := rfl

def itemCall (conn pid : ℕ) (rest : σ) (item : Item) : Call :=
  requestCall env conn pid item.toRequest (env.behind rest item)

/-- The part of `process_next_request` after a request that passed. -/
def afterRequest (pid : ℕ) : Pnr × Server σ :=
  let s := loadPlayer env s pid
  match requestQueueFront env s pid with
  | none => (.empty, s)
  | some item =>
    if item.busy then (.busy, s)
    else
      let s := requestQueuePop env s pid
      (if (requestQueueFront env s pid).isSome then .more else .empty, s)

section Next

variable {env} {s : Server σ} {pid conn : ℕ} {item : Item} {queue : List Item}

theorem afterRequest_pops {c : Option ℕ} (h0 : pid ≠ 0)
    (hp : s.players pid = some ⟨c, item :: queue⟩) (hb : item.busy = false) :
    afterRequest env s pid = (if queue = [] then .empty else .more, s.setPlayer pid (some ⟨c, queue⟩)) := by
  have hpop := requestQueuePop_of_loaded env h0 hp
  have hfront := requestQueueFront_of_loaded env h0 (setPlayer_players_self s pid (some ⟨c, queue⟩))
  simp only [List.tail_cons] at hpop
  simp only [afterRequest, loadPlayer_of_loaded env h0 hp, requestQueueFront_of_loaded env h0 hp, List.head?_cons,
    hb, Bool.false_eq_true, if_false, hpop, hfront]
  cases queue <;> rfl

theorem afterRequest_waits {c : Option ℕ} (h0 : pid ≠ 0)
    (hp : s.players pid = some ⟨c, item :: queue⟩) (hb : item.busy = true) :
    afterRequest env s pid = (.busy, s) := by
  simp only [afterRequest, loadPlayer_of_loaded env h0 hp, requestQueueFront_of_loaded env h0 hp, List.head?_cons,
    hb, if_true]

theorem afterRequest_unloaded (h0 : pid ≠ 0) (hp : s.players pid = none) :
    afterRequest env s pid = (.empty, loadPlayer env s pid) := by
  have hfront : requestQueueFront env (loadPlayer env s pid) pid = none := by
    rcases loadPlayer_of_unloaded env hp with h | h
    · exact requestQueueFront_of_unloaded env h
    · exact requestQueueFront_of_loaded env h0 h
  simp only [afterRequest, hfront]

/-- The queue of the player is as it was before the command function. -/
def Keeps (effect : Effect) : Prop := effect = .kept ∨ effect = .loaded

theorem Keeps.apply {effect : Effect} (h : Keeps effect) (p : Player) : effect.apply (some p) = some p := by
  rcases h with rfl | rfl <;> rfl

theorem afterRequest_cases (env : Env σ) {effect : Effect} {c : Option ℕ} (h0 : pid ≠ 0)
    (hp : s.players pid = effect.apply (some ⟨c, item :: queue⟩)) (hb : item.busy = false) :
    (∃ c', afterRequest env s pid =
        (if queue = [] then .empty else .more, s.setPlayer pid (some ⟨c', queue⟩)) ∧
      (Keeps effect ∧ c' = c ∨ effect = .offline ∧ c' = none)) ∨
    (s.players pid = some ⟨c, { item with busy := true } :: queue⟩ ∧ afterRequest env s pid = (.busy, s)) ∨
    (s.players pid = none ∧ afterRequest env s pid = (.empty, loadPlayer env s pid)) := by
  cases effect with
  | kept => exact .inl ⟨c, afterRequest_pops h0 hp hb, .inl ⟨.inl rfl, rfl⟩⟩
  | loaded => exact .inl ⟨c, afterRequest_pops h0 hp hb, .inl ⟨.inr rfl, rfl⟩⟩
  | deferred => exact .inr (.inl ⟨hp, afterRequest_waits h0 hp rfl⟩)
  | offline => exact .inl ⟨none, afterRequest_pops h0 hp hb, .inr ⟨rfl, rfl⟩⟩
  | unloaded => exact .inr (.inr ⟨hp, afterRequest_unloaded h0 hp⟩)

theorem processNextRequest_of_offline (hp : ∀ conn queue, s.players pid ≠ some ⟨some conn, queue⟩) :
    processNextRequest env s pid = .ok (.empty, s) := by
  have h : playerGetOnline s pid = none := by
    rw [playerGetOnline]
    rcases hs : s.players pid with - | ⟨- | conn, queue⟩
    · rfl
    · rfl
    · exact absurd hs (hp conn queue)
  rw [processNextRequest, h]

theorem processNextRequest_of_nil (h0 : pid ≠ 0) (hp : s.players pid = some ⟨some conn, []⟩) :
    processNextRequest env s pid = .ok (.empty, s) := by
  simp only [processNextRequest, playerGetOnline, hp, requestQueueFront_of_loaded env h0 hp, List.head?_nil]

theorem processNextRequest_of_busy (h0 : pid ≠ 0) (hp : s.players pid = some ⟨some conn, item :: queue⟩)
    (hb : item.busy = true) : processNextRequest env s pid = .ok (.busy, s) := by
  simp only [processNextRequest, playerGetOnline, hp, requestQueueFront_of_loaded env h0 hp, List.head?_cons, hb,
    if_true]

theorem processNextRequest_eq (h0 : pid ≠ 0) (hp : s.players pid = some ⟨some conn, item :: queue⟩)
    (hb : item.busy = false) :
    processNextRequest env s pid = (do
      let (ret, s) ← processRequest env (s.hand pid item.serial) conn pid item.toRequest
        (env.behind s.rest item)
      if ret = -1 then return (.error, s)
      return afterRequest env s pid) := by
  simp only [processNextRequest, playerGetOnline, hp, requestQueueFront_of_loaded env h0 hp, List.head?_cons, hb,
    Bool.false_eq_true, if_false]
  congr 1
  funext ⟨ret, s'⟩
  dsimp only
  split
  · rfl
  · cases hq : requestQueueFront env (loadPlayer env s' pid) pid with
    | none => simp only [afterRequest, hq]
    | some next =>
      by_cases hn : next.busy = true
      · simp only [afterRequest, hq, hn, if_true]
      · simp only [afterRequest, hq, hn, Bool.false_eq_true, if_false]

theorem processNextRequest_of_overruns (h0 : pid ≠ 0)
    (hp : s.players pid = some ⟨some conn, item :: queue⟩) (hb : item.busy = false)
    (h : Overruns item.toRequest) : ∃ e, processNextRequest env s pid = .error e := by
  obtain ⟨e, he⟩ := h.processRequest (s.hand pid item.serial) conn pid (env.behind s.rest item)
  refine ⟨e, ?_⟩
  rw [processNextRequest_eq h0 hp hb, he]
  rfl

theorem processNextRequest_of_fails (h0 : pid ≠ 0)
    (hp : s.players pid = some ⟨some conn, item :: queue⟩) (hb : item.busy = false)
    (h : ¬ Passes env item.toRequest (env.behind s.rest item)) (hf : ¬ Overruns item.toRequest) :
    processNextRequest env s pid = .ok (.error, s.hand pid item.serial) := by
  rw [processNextRequest_eq h0 hp hb, processRequest_of_fails h hf]
  rfl

theorem processNextRequest_of_passes (h0 : pid ≠ 0)
    (hp : s.players pid = some ⟨some conn, item :: queue⟩) (hb : item.busy = false)
    (h : Passes env item.toRequest (env.behind s.rest item)) :
    processNextRequest env s pid = (do
      let (effects, rest) ← env.handle s.rest (itemCall env conn pid s.rest item)
      return afterRequest env ((s.hand pid item.serial).affect effects rest) pid) := by
  rw [processNextRequest_eq h0 hp hb, processRequest_of_passes h]
  simp only [itemCall, hand_rest, bind_assoc]
  rfl

theorem processNextRequest_of_answered {effects : ℕ → Effect} {rest : σ} (h0 : pid ≠ 0)
    (hp : s.players pid = some ⟨some conn, item :: queue⟩) (hb : item.busy = false)
    (h : Passes env item.toRequest (env.behind s.rest item))
    (hcall : env.handle s.rest (itemCall env conn pid s.rest item) = .ok (effects, rest)) :
    processNextRequest env s pid = .ok (afterRequest env ((s.hand pid item.serial).affect effects rest) pid) := by
  rw [processNextRequest_of_passes h0 hp hb h, hcall]
  rfl

end Next

end CServer.World
