import CServer.World.LinkFraming
import CServer.Lib.Exec

/-! # The order of the requests of a player

A run of the server is a sequence of frames, of calls of `request_queue_pop` and
`process_next_request`, and of whatever else the rest of the server does to the players. The requests of
a player are numbered as they are pushed, so that the law of the queue is about increasing numbers: those
handed to `process_request`, followed by those of the requests that wait.
-/
namespace CServer.World
open CServer.Lib CServer.Framework List Function

variable {σ : Type} (env : Env σ)

/-! ## Runs -/

inductive Act (σ : Type)
  | message (conn : ℕ) (link : List UInt8)
  | pop (pid : ℕ)
  | next (pid : ℕ)
  | other (effects : ℕ → Effect) (rest : σ)

variable (s : Server σ)

def worldStep : Act σ → Except Fault (Server σ)
  | .message conn link => do return (← processMessage env s conn link).2
  | .pop pid => .ok (requestQueuePop env s pid)
  | .next pid => do return (← processNextRequest env s pid).2
  | .other effects rest => .ok (s.affect effects rest)

def queueOf : Option Player → List Item
  | none => []
  | some p => p.queue

/-- The requests of the player that have been handed to `process_request` were so in the order in which
they were pushed, each once, and none of them is in the queue unless it is busy. -/
def InOrder (pid : ℕ) : Prop :=
  (s.handed pid).Pairwise (· < ·) ∧
    ∀ item ∈ queueOf (s.players pid), item.busy = false → item.serial ∉ s.handed pid

/-- Nothing is left to process: the queue of the player, if online, is empty or starts with a busy request. -/
def Settled (pid : ℕ) : Prop :=
  ∀ conn item queue, s.players pid = some ⟨some conn, item :: queue⟩ → item.busy = true

def Pushes (link : List UInt8) : Prop :=
  Complete link ∧ ¬ ((translateHeader link).serverid = 0 ∧ (translateHeader link).playerid ≠ 0) ∧
    ¬ Blocked env s (translateHeader link) ∧ Queued (translateHeader link)

/-- A request that is pushed passes the checks of `process_request`, whatever lies behind it in memory. -/
def Sound : Act σ → Prop
  | .message _ link => Pushes env s link →
      (playerGet env (checked env s (translateHeader link)) (translateHeader link).pid).isSome →
      ∀ beyond, Passes env (frameRequest env link) beyond
  | _ => True

/-! ## The law of one queue -/

def waiting (queue : List Item) : List Item := queue.filter fun item => !item.busy

structure QueueOk (pushed : ℕ) (handed : List ℕ) (queue : List Item) : Prop where
  ordered : (handed ++ (waiting queue).map Item.serial).Pairwise (· < ·)
  below : ∀ k ∈ handed ++ (waiting queue).map Item.serial, k < pushed
  passes : ∀ item ∈ waiting queue, ∀ beyond, Passes env item.toRequest beyond

section Queue

variable {env} {pushed : ℕ} {handed : List ℕ} {queue queue' : List Item} {item : Item}

theorem waiting_cons_of_free (hb : item.busy = false) : waiting (item :: queue) = item :: waiting queue := by
  simp [waiting, hb]

theorem waiting_tail_sublist (queue : List Item) : (waiting queue.tail).Sublist (waiting queue) :=
  (tail_sublist queue).filter _

theorem waiting_setBusy_sublist (queue : List Item) : (waiting (setBusy queue)).Sublist (waiting queue) := by
  cases queue with
  | nil => exact Sublist.refl _
  | cons item queue => exact waiting_tail_sublist (item :: queue)

theorem QueueOk.mono (h : QueueOk env pushed handed queue) (hs : (waiting queue').Sublist (waiting queue)) :
    QueueOk env pushed handed queue' := by
  have hsub : (handed ++ (waiting queue').map Item.serial).Sublist
      (handed ++ (waiting queue).map Item.serial) := (hs.map _).append_left _
  exact ⟨h.ordered.sublist hsub, fun k hk => h.below k (hsub.subset hk),
    fun item hi => h.passes item (hs.subset hi)⟩

theorem QueueOk.hand (h : QueueOk env pushed handed (item :: queue)) (hb : item.busy = false)
    (hs : (waiting queue').Sublist (waiting queue)) :
    QueueOk env pushed (handed ++ [item.serial]) queue' := by
  have heq : handed ++ (waiting (item :: queue)).map Item.serial =
      handed ++ [item.serial] ++ (waiting queue).map Item.serial := by
    rw [waiting_cons_of_free hb, map_cons, append_assoc, singleton_append]
  have hrest : QueueOk env pushed (handed ++ [item.serial]) queue := by
    refine ⟨heq ▸ h.ordered, heq ▸ h.below, fun a ha => h.passes a ?_⟩
    rw [waiting_cons_of_free hb]
    exact mem_cons_of_mem _ ha
  exact hrest.mono hs

theorem QueueOk.push (h : QueueOk env pushed handed queue) {r : Request} (hr : ∀ beyond, Passes env r beyond) :
    QueueOk env (pushed + 1) handed (queue ++ [{ r with busy := false, serial := pushed }]) := by
  have heq : waiting (queue ++ [{ r with busy := false, serial := pushed }]) =
      waiting queue ++ [{ r with busy := false, serial := pushed }] := by
    simp [waiting]
  constructor
  · rw [heq, map_append, ← append_assoc]
    refine pairwise_append.2 ⟨h.ordered, pairwise_singleton _ _, fun k hk m hm => ?_⟩
    obtain rfl : m = pushed := by simpa using hm
    exact h.below k hk
  · intro k hk
    rw [heq, map_append, ← append_assoc] at hk
    rcases mem_append.1 hk with hk | hk
    · exact Nat.lt_succ_of_lt (h.below k hk)
    · obtain rfl : k = pushed := by simpa using hk
      exact Nat.lt_succ_self k
  · intro item hi
    rw [heq] at hi
    rcases mem_append.1 hi with hi | hi
    · exact h.passes item hi
    · obtain rfl := mem_singleton.1 hi
      exact hr

theorem QueueOk.inOrder {s : Server σ} {pid : ℕ}
    (h : QueueOk env (s.pushed pid) (s.handed pid) (queueOf (s.players pid))) : InOrder s pid := by
  obtain ⟨hhanded, -, hlt⟩ := pairwise_append.1 h.ordered
  refine ⟨hhanded, fun item hi hb hmem => ?_⟩
  have hw : item ∈ waiting (queueOf (s.players pid)) := mem_filter.2 ⟨hi, by simp [hb]⟩
  exact Nat.lt_irrefl _ (hlt _ hmem _ (mem_map_of_mem hw))

end Queue

/-! ## The server -/

def Server.Ok : Prop :=
  ∀ pid, QueueOk env (s.pushed pid) (s.handed pid) (queueOf (s.players pid))

theorem Effect.waiting_apply_sublist (effect : Effect) (p : Option Player) :
    (waiting (queueOf (effect.apply p))).Sublist (waiting (queueOf p)) := by
  cases effect with
  | kept => exact Sublist.refl _
  | loaded => cases p <;> exact Sublist.refl _
  | deferred =>
    cases p with
    | none => exact Sublist.refl _
    | some p => exact waiting_setBusy_sublist p.queue
  | offline => cases p <;> exact Sublist.refl _
  | unloaded => exact nil_sublist _

section Steps

variable {env} {s s' : Server σ} {pid : ℕ}

theorem Server.Ok.shrink (h : s.Ok env) (hpushed : s'.pushed = s.pushed) (hhanded : s'.handed = s.handed)
    (hq : ∀ pid, (waiting (queueOf (s'.players pid))).Sublist (waiting (queueOf (s.players pid)))) :
    s'.Ok env := by
  intro pid
  rw [hpushed, hhanded]
  exact (h pid).mono (hq pid)

theorem Server.Ok.setPlayer (h : s.Ok env) {p : Option Player}
    (hq : (waiting (queueOf p)).Sublist (waiting (queueOf (s.players pid)))) : (s.setPlayer pid p).Ok env := by
  refine h.shrink rfl rfl fun other => ?_
  by_cases ho : other = pid
  · subst ho
    rw [setPlayer_players_self]
    exact hq
  · rw [setPlayer_players_of_ne s ho]

theorem Server.Ok.affect (h : s.Ok env) (effects : ℕ → Effect) (rest : σ) : (s.affect effects rest).Ok env :=
  h.shrink rfl rfl fun pid => (effects pid).waiting_apply_sublist (s.players pid)

theorem Server.Ok.unloadZombies (h : s.Ok env) : (World.unloadZombies env s).Ok env := by
  refine h.shrink rfl rfl fun pid => ?_
  simp only [World.unloadZombies]
  split
  · split
    · exact nil_sublist _
    · rename_i hp _
      rw [hp]
  · exact Sublist.refl _

theorem Server.Ok.checked (h : s.Ok env) (header : TranslateHeader) : (World.checked env s header).Ok env :=
  h.unloadZombies.shrink rfl rfl fun _ => Sublist.refl _

theorem queueOf_playerGet {p : Player} (hp : playerGet env s pid = some p) :
    p.queue = queueOf (s.players pid) := by
  cases hs : s.players pid with
  | none =>
    rcases playerGet_of_unloaded env hs with h | h
    · rw [h] at hp
      cases hp
    · rw [h] at hp
      cases hp
      rfl
  | some q =>
    simp only [playerGet, hs] at hp
    split at hp
    · cases hp
    · cases hp
      rfl

theorem Server.Ok.loadPlayer (h : s.Ok env) : (World.loadPlayer env s pid).Ok env := by
  rw [World.loadPlayer]
  split
  · rename_i p hp
    exact h.setPlayer (by rw [queueOf, queueOf_playerGet hp])
  · exact h

theorem Server.Ok.playerSetConn (h : s.Ok env) (conn : ℕ) : (World.playerSetConn env s pid conn).Ok env := by
  rw [World.playerSetConn]
  split
  · rename_i p hp
    exact h.setPlayer (by rw [queueOf, queueOf_playerGet hp])
  · exact h

theorem Server.Ok.requestQueuePop (h : s.Ok env) : (World.requestQueuePop env s pid).Ok env := by
  rw [World.requestQueuePop]
  split
  · exact h
  · rename_i p hp
    refine h.setPlayer ?_
    rw [queueOf, queueOf_playerGet hp]
    exact waiting_tail_sublist _

theorem Server.Ok.push (h : s.Ok env) {p : Player} {r : Request} (hp : s.players pid = some p)
    (hr : ∀ beyond, Passes env r beyond) : (s.push pid p r).Ok env := by
  intro other
  by_cases ho : other = pid
  · subst ho
    have hq := (h other).push hr
    rw [hp] at hq
    simpa [Server.push, queueOf] using hq
  · simpa [Server.push, ho] using h other

/-- The request at the head is handed over, the rest of the server acts on the players, and of the queue only
requests behind the head still wait. -/
theorem Server.Ok.hand_affect (h : s.Ok env) {c : Option ℕ} {item : Item} {queue : List Item}
    (hp : s.players pid = some ⟨c, item :: queue⟩) (hb : item.busy = false) (effects : ℕ → Effect) (rest : σ)
    {p : Option Player} (hsub : (waiting (queueOf p)).Sublist (waiting queue)) :
    (((s.hand pid item.serial).affect effects rest).setPlayer pid p).Ok env := by
  intro other
  by_cases ho : other = pid
  · subst ho
    have hq := h other
    rw [hp] at hq
    have hhanded : (((s.hand other item.serial).affect effects rest).setPlayer other p).handed other =
        s.handed other ++ [item.serial] := update_self ..
    rw [setPlayer_players_self, hhanded]
    exact hq.hand hb hsub
  · have hhanded : (((s.hand pid item.serial).affect effects rest).setPlayer pid p).handed other =
        s.handed other := update_of_ne ho ..
    rw [setPlayer_players_of_ne _ ho, hhanded]
    exact (h other).mono (Effect.waiting_apply_sublist _ (s.players other))

theorem Server.Ok.afterRequest (h : s.Ok env) (h0 : pid ≠ 0) {conn : ℕ} {item : Item} {queue : List Item}
    (hp : s.players pid = some ⟨some conn, item :: queue⟩) (hb : item.busy = false) (effects : ℕ → Effect) (rest : σ)
    {r : Pnr} (hafter : World.afterRequest env ((s.hand pid item.serial).affect effects rest) pid = (r, s')) :
    s'.Ok env ∧ (r ≠ .more → Settled s' pid) := by
  have hp₁ := affect_players (s.hand pid item.serial) effects rest pid
  rw [hand_players, hp] at hp₁
  have hset : ∀ p : Option Player, (waiting (queueOf p)).Sublist (waiting queue) →
      (((s.hand pid item.serial).affect effects rest).setPlayer pid p).Ok env :=
    fun p hsub => h.hand_affect hp hb _ _ hsub
  generalize (s.hand pid item.serial).affect effects rest = s₁ at hp₁ hset hafter
  have hself : (waiting (queueOf (s₁.players pid))).Sublist (waiting queue) → s₁.Ok env := by
    intro hsub
    have hok := hset _ hsub
    rwa [Server.setPlayer, update_eq_self] at hok
  rcases afterRequest_cases env h0 hp₁ hb with ⟨c, hcase, -⟩ | ⟨hp', hcase⟩ | ⟨hp', hcase⟩
  · rw [hcase] at hafter
    cases hafter
    refine ⟨hset _ (Sublist.refl _), fun hr conn' item' queue' hp'' => ?_⟩
    rw [setPlayer_players_self] at hp''
    cases hp''
    exact absurd rfl hr
  · rw [hcase] at hafter
    cases hafter
    refine ⟨hself ?_, fun _ conn' item' queue' hp'' => ?_⟩
    · rw [hp']
      exact Sublist.refl _
    · rw [hp'] at hp''
      cases hp''
      rfl
  · rw [hcase] at hafter
    cases hafter
    refine ⟨(hself ?_).loadPlayer, fun _ conn' item' queue' hp'' => ?_⟩
    · rw [hp']
      exact nil_sublist _
    · rcases loadPlayer_of_unloaded env hp' with hl | hl
      · rw [hl] at hp''
        cases hp''
      · rw [hl] at hp''
        cases hp''

theorem Server.Ok.processNextRequest (h : s.Ok env) (h0 : pid ≠ 0) {r : Pnr}
    (hr : World.processNextRequest env s pid = .ok (r, s')) : s'.Ok env ∧ (r ≠ .more → Settled s' pid) := by
  by_cases hon : ∀ conn queue, s.players pid ≠ some ⟨some conn, queue⟩
  · rw [processNextRequest_of_offline hon] at hr
    cases hr
    exact ⟨h, fun _ conn item queue hp => absurd hp (hon conn _)⟩
  push Not at hon
  obtain ⟨conn, queue, hp⟩ := hon
  cases queue with
  | nil =>
    rw [processNextRequest_of_nil h0 hp] at hr
    cases hr
    refine ⟨h, fun _ conn' item queue hp' => ?_⟩
    rw [hp] at hp'
    cases hp'
  | cons item queue =>
    by_cases hb : item.busy = true
    · rw [processNextRequest_of_busy h0 hp hb] at hr
      cases hr
      refine ⟨h, fun _ conn' item' queue' hp' => ?_⟩
      rw [hp] at hp'
      cases hp'
      exact hb
    · rw [Bool.not_eq_true] at hb
      have hpass : Passes env item.toRequest (env.behind s.rest item) := by
        refine (h pid).passes item ?_ _
        rw [hp, queueOf, waiting_cons_of_free hb]
        exact mem_cons_self
      rw [processNextRequest_of_passes h0 hp hb hpass] at hr
      obtain ⟨⟨effects, rest⟩, -, hafter⟩ := bind_ok_iff.1 hr
      exact h.afterRequest h0 hp hb effects rest (Except.ok.inj hafter)

theorem Server.Ok.drain (h0 : pid ≠ 0) (fuel : ℕ) : ∀ {s : Server σ}, s.Ok env →
    World.drain env fuel s pid = .ok s' → s'.Ok env ∧ Settled s' pid := by
  induction fuel with
  | zero => exact fun _ hr => nomatch hr
  | succ fuel ih =>
    intro s h hr
    obtain ⟨⟨r, s₁⟩, hnext, hrest⟩ := bind_ok_iff.1 hr
    obtain ⟨hok, hsettled⟩ := h.processNextRequest h0 hnext
    cases r with
    | more => exact ih hok hrest
    | _ =>
      cases hrest
      exact ⟨hok, hsettled (by decide)⟩

theorem processNextRequest_zero : World.processNextRequest env s 0 = .ok (.empty, s) := by
  rw [World.processNextRequest]
  split
  · rfl
  · rfl

theorem Server.Ok.processRequest (h : s.Ok env) {conn : ℕ} {r : Request} {beyond : Mem} {ret : Int}
    (hr : World.processRequest env s conn pid r beyond = .ok (ret, s')) : s'.Ok env := by
  by_cases hpass : Passes env r beyond
  · rw [processRequest_of_passes hpass] at hr
    obtain ⟨⟨effects, rest⟩, -, heq⟩ := bind_ok_iff.1 hr
    cases heq
    exact h.affect effects rest
  by_cases hf : Overruns r
  · obtain ⟨e, he⟩ := hf.processRequest s conn pid beyond
    rw [he] at hr
    cases hr
  · rw [processRequest_of_fails hpass hf] at hr
    cases hr
    exact h

section Message

variable {conn n : ℕ} {link : List UInt8}

theorem Server.Ok.processMessage_of_pushes (h : s.Ok env) (hsound : Sound env s (.message conn link))
    (hpushes : Pushes env s link) (hr : processMessage env s conn link = .ok (n, s')) :
    s'.Ok env ∧ Settled s' (translateHeader link).pid := by
  obtain ⟨hc, hs, hb, hq⟩ := id hpushes
  rw [processMessage_of_queued hc hs hb hq] at hr
  obtain ⟨s₁, hpush, hrun⟩ := bind_ok_iff.1 hr
  obtain ⟨s₂, hdrain, heq⟩ := bind_ok_iff.1 hrun
  cases heq
  have hok₁ : s₁.Ok env := by
    cases hp : playerGet env (World.checked env s (translateHeader link)) (translateHeader link).pid with
    | none =>
      rw [playerSetConn_of_unknown env hp, requestQueuePush_of_unknown env hp] at hpush
      cases hpush
      exact h.checked _
    | some p =>
      have hok : (World.playerSetConn env (World.checked env s (translateHeader link))
          (translateHeader link).pid conn).Ok env := (h.checked _).playerSetConn conn
      rw [playerSetConn_of_known env hp] at hpush hok
      obtain ⟨-, -, rfl⟩ := requestQueuePush_ok env hq.1 (setPlayer_players_self ..) hpush
      exact hok.push (setPlayer_players_self ..) (hsound hpushes (by rw [hp]; rfl))
  exact Server.Ok.drain hq.1 _ hok₁ hdrain

theorem Server.Ok.processMessage_of_not_pushes (h : s.Ok env) (hpushes : ¬ Pushes env s link)
    (hr : processMessage env s conn link = .ok (n, s')) : s'.Ok env := by
  by_cases hc : Complete link
  · by_cases hs : (translateHeader link).serverid = 0 ∧ (translateHeader link).playerid ≠ 0
    · rw [processMessage_of_no_server hc hs] at hr
      cases hr
      exact h.unloadZombies
    by_cases hb : Blocked env s (translateHeader link)
    · rw [processMessage_of_blocked hc hs hb] at hr
      cases hr
      exact (h.checked _).loadPlayer
    have hq : ¬ Queued (translateHeader link) := fun hq => hpushes ⟨hc, hs, hb, hq⟩
    rw [processMessage_of_direct hc hs hb hq] at hr
    obtain ⟨⟨ret, s₁⟩, hreq, heq⟩ := bind_ok_iff.1 hr
    cases heq
    refine Server.Ok.processRequest ?_ hreq
    split
    · exact (h.checked _).playerSetConn conn
    · exact h.unloadZombies
  · rw [processMessage_of_incomplete hc] at hr
    cases hr
    exact h

end Message

theorem Server.Ok.worldStep (h : s.Ok env) {act : Act σ} (hsound : Sound env s act)
    (hr : World.worldStep env s act = .ok s') : s'.Ok env := by
  cases act with
  | message conn link =>
    obtain ⟨⟨n, s₁⟩, hmsg, heq⟩ := bind_ok_iff.1 hr
    cases heq
    by_cases hpushes : Pushes env s link
    · exact (h.processMessage_of_pushes hsound hpushes hmsg).1
    · exact h.processMessage_of_not_pushes hpushes hmsg
  | pop pid =>
    cases hr
    exact h.requestQueuePop
  | next pid =>
    obtain ⟨⟨r, s₁⟩, hnext, heq⟩ := bind_ok_iff.1 hr
    cases heq
    by_cases h0 : pid = 0
    · subst h0
      rw [processNextRequest_zero] at hnext
      cases hnext
      exact h
    · exact (h.processNextRequest h0 hnext).1
  | other effects rest =>
    cases hr
    exact h.affect effects rest

theorem Server.Ok.start (rest : σ) : (Server.start rest).Ok env := by
  intro pid
  exact ⟨List.Pairwise.nil, by rintro k ⟨⟩, by rintro item ⟨⟩⟩

end Steps

/-! ## Runs of sound frames -/

def queryFrame (flag : UInt8) : List UInt8 :=
  [0, 0, 0, 29, 0, 0, 0, 0, 0, 0, 0, 1, 0, 0, 0, 0, 0, 0, 0, flag, 0, 0, 0, 5, 0, 0, 0, 1, 0]

end CServer.World
