import CServer.World.RequestStep

/-! # Frames of a gateway link

`process_conn_message` calls `process_message` again only after a result other than 0, so a complete
frame must be answered with its length. `Taken` says on which frames, in which states of the server,
that is so.
-/
namespace CServer.World
open CServer.Lib CServer.Framework

variable {σ : Type} (env : Env σ)

/-! ## Draining a queue -/

/-- No request that is reached from the head of the queue overruns the table of strings or is one that its
command function asserts on: a busy request or one that fails is the last that is reached. -/
def DrainSafe (pid conn : ℕ) : σ → List Item → Prop
  | _, [] => True
  | rest, item :: queue =>
    item.busy = true ∨
      ¬ Overruns item.toRequest ∧
        (Passes env item.toRequest (env.behind rest item) →
          match env.handle rest (itemCall env conn pid rest item) with
          | .ok (effects, rest) => Keeps (effects pid) → DrainSafe pid conn rest queue
          | .error _ => False)

section Drain

variable {env} {s : Server σ} {pid conn : ℕ}

theorem drain_of_stop {fuel : ℕ} {r : Pnr} {s' : Server σ} (h : processNextRequest env s pid = .ok (r, s'))
    (hr : r ≠ .more) : drain env (fuel + 1) s pid = .ok s' := by
  rw [drain, h, ok_bind]
  cases r with
  | more => exact absurd rfl hr
  | _ => rfl

theorem drain_of_more {fuel : ℕ} {s' : Server σ} (h : processNextRequest env s pid = .ok (.more, s')) :
    drain env (fuel + 1) s pid = drain env fuel s' pid := by
  rw [drain, h, ok_bind]

theorem drain_of_error {fuel : ℕ} {e : Fault} (h : processNextRequest env s pid = .error e) :
    drain env (fuel + 1) s pid = .error e := by
  rw [drain, h]
  rfl

theorem drain_of_offline {fuel : ℕ} (hp : ∀ conn queue, s.players pid ≠ some ⟨some conn, queue⟩) :
    drain env (fuel + 1) s pid = .ok s :=
  drain_of_stop (processNextRequest_of_offline hp) (by decide)

theorem processNextRequest_of_keeps {item : Item} {queue : List Item} {effects : ℕ → Effect} {rest : σ} (h0 : pid ≠ 0)
    (hp : s.players pid = some ⟨some conn, item :: queue⟩) (hb : item.busy = false)
    (h : Passes env item.toRequest (env.behind s.rest item))
    (hcall : env.handle s.rest (itemCall env conn pid s.rest item) = .ok (effects, rest)) (hk : Keeps (effects pid)) :
    processNextRequest env s pid = .ok (if queue = [] then .empty else .more,
      ((s.hand pid item.serial).affect effects rest).setPlayer pid (some ⟨some conn, queue⟩)) := by
  rw [processNextRequest_of_answered h0 hp hb h hcall, afterRequest_pops h0 _ hb]
  rw [affect_players, hand_players, hp, hk.apply]

theorem drain_of_not_keeps {item : Item} {queue : List Item} {effects : ℕ → Effect} {rest : σ} {fuel : ℕ} (h0 : pid ≠ 0)
    (hp : s.players pid = some ⟨some conn, item :: queue⟩) (hb : item.busy = false)
    (h : Passes env item.toRequest (env.behind s.rest item))
    (hcall : env.handle s.rest (itemCall env conn pid s.rest item) = .ok (effects, rest))
    (hk : ¬ Keeps (effects pid)) : ∃ s', drain env (fuel + 2) s pid = .ok s' := by
  have hnext := processNextRequest_of_answered h0 hp hb h hcall
  have hp₁ := affect_players (s.hand pid item.serial) effects rest pid
  rw [hand_players, hp] at hp₁
  rcases afterRequest_cases env h0 hp₁ hb with ⟨c, hafter, hkeeps | ⟨-, rfl⟩⟩ | ⟨-, hafter⟩ | ⟨-, hafter⟩
  · exact absurd hkeeps.1 hk
  · rw [hafter] at hnext
    by_cases hq : queue = []
    · rw [if_pos hq] at hnext
      exact ⟨_, drain_of_stop hnext (by decide)⟩
    · rw [if_neg hq] at hnext
      refine ⟨_, (drain_of_more hnext).trans (drain_of_offline ?_)⟩
      intro conn queue' h'
      rw [setPlayer_players_self] at h'
      cases h'
  · rw [hafter] at hnext
    exact ⟨_, drain_of_stop hnext (by decide)⟩
  · rw [hafter] at hnext
    exact ⟨_, drain_of_stop hnext (by decide)⟩

theorem drain_ok_iff (env : Env σ) (h0 : pid ≠ 0) (queue : List Item) :
    ∀ (s : Server σ) (fuel : ℕ), s.players pid = some ⟨some conn, queue⟩ → queue.length < fuel →
      ((∃ s', drain env fuel s pid = .ok s') ↔ DrainSafe env pid conn s.rest queue) := by
  induction queue with
  | nil =>
    intro s fuel hp hfuel
    obtain ⟨fuel, rfl⟩ := exists_succ_of_lt hfuel
    have hrun : drain env (fuel + 1) s pid = .ok s :=
      drain_of_stop (processNextRequest_of_nil h0 hp) (by decide)
    exact iff_of_true ⟨s, hrun⟩ trivial
  | cons item queue ih =>
    intro s fuel hp hfuel
    simp only [List.length_cons] at hfuel
    obtain ⟨fuel, rfl⟩ : ∃ n, fuel = n + 2 := ⟨fuel - 2, by omega⟩
    by_cases hb : item.busy = true
    · have hrun : drain env (fuel + 2) s pid = .ok s :=
        drain_of_stop (processNextRequest_of_busy h0 hp hb) (by decide)
      exact iff_of_true ⟨s, hrun⟩ (.inl hb)
    rw [Bool.not_eq_true] at hb
    by_cases hf : Overruns item.toRequest
    · obtain ⟨e, he⟩ := processNextRequest_of_overruns h0 hp hb hf
      refine iff_of_false ?_ ?_
      · rintro ⟨s', hs'⟩
        rw [drain_of_error he] at hs'
        cases hs'
      · rintro (hb' | ⟨hf', -⟩)
        · rw [hb] at hb'
          cases hb'
        · exact hf' hf
    by_cases hpass : Passes env item.toRequest (env.behind s.rest item)
    · rcases hcall : env.handle s.rest (itemCall env conn pid s.rest item) with e | ⟨effects, rest⟩
      · have hnext : processNextRequest env s pid = .error e := by
          rw [processNextRequest_of_passes h0 hp hb hpass, hcall]
          rfl
        have hsafe : ¬ DrainSafe env pid conn s.rest (item :: queue) := by
          simp [DrainSafe, hb, hpass, hcall]
        refine iff_of_false ?_ hsafe
        rintro ⟨s', hs'⟩
        rw [drain_of_error hnext] at hs'
        cases hs'
      by_cases hk : Keeps (effects pid)
      · have hnext := processNextRequest_of_keeps h0 hp hb hpass hcall hk
        have hsafe : DrainSafe env pid conn s.rest (item :: queue) ↔ DrainSafe env pid conn rest queue := by
          simp [DrainSafe, hb, hf, hpass, hcall, hk]
        rw [hsafe]
        by_cases hq : queue = []
        · subst hq
          exact iff_of_true ⟨_, drain_of_stop hnext (by simp)⟩ trivial
        · rw [if_neg hq] at hnext
          rw [drain_of_more hnext]
          exact ih _ (fuel + 1) (setPlayer_players_self ..) (by omega)
      · have hsafe : DrainSafe env pid conn s.rest (item :: queue) := by
          simp [DrainSafe, hf, hcall, hk]
        exact iff_of_true (drain_of_not_keeps h0 hp hb hpass hcall hk) hsafe
    · have hrun : drain env (fuel + 2) s pid = .ok (s.hand pid item.serial) :=
        drain_of_stop (processNextRequest_of_fails h0 hp hb hpass hf) (by decide)
      exact iff_of_true ⟨_, hrun⟩ (.inr ⟨hf, fun h => absurd h hpass⟩)

end Drain

/-! ## A frame -/

def Complete (link : List UInt8) : Prop :=
  headerSize ≤ link.length ∧ (translateHeader link).len ≤ link.length

variable (s : Server σ)

/-- 0 is returned only where there is no whole frame, and a whole frame is answered with its length. -/
def FramesLink (conn : ℕ) (link : List UInt8) : Prop :=
  (∀ s', processMessage env s conn link = .ok (0, s') → ¬ Complete link) ∧
    (Complete link → ∃ s', processMessage env s conn link = .ok ((translateHeader link).len, s'))

/-- The anti-addiction check lets only login and logout through. -/
def Blocked (h : TranslateHeader) : Prop :=
  0 < h.playerid ∧ (env.canLogin s.rest h.pid).1 = false ∧ h.cmd ≠ cLoginRequest ∧ h.cmd ≠ cLogoutRequest

def Queued (h : TranslateHeader) : Prop :=
  h.pid ≠ 0 ∧ h.cmd ≠ cLoginRequest ∧ h.cmd ≠ cCreatePlayerRequest

def checked (h : TranslateHeader) : Server σ :=
  { unloadZombies env s with rest := (env.canLogin s.rest h.pid).2 }

def behindFrame (link : List UInt8) : Mem :=
  fun i => linkMem link env.beyond (headerSize + (translateHeader link).dataLen + i)

def queueItem (link : List UInt8) : Item :=
  { frameRequest env link with busy := false, serial := s.pushed (translateHeader link).pid }

/-- The command function does not assert on the frame, which is processed at once. -/
def Answered (conn : ℕ) (link : List UInt8) : Prop :=
  let h := translateHeader link
  ∃ done, env.handle (if 0 < h.playerid then (env.canLogin s.rest h.pid).2 else s.rest)
    (requestCall env conn h.pid (frameRequest env link) (behindFrame env link)) = .ok done

/-- The frame has a length and, if it names a player, a server; and the check refuses it, or it is queued
for a player with a body that is there and draining the queue is safe, or it is processed at once, passes and
is answered. -/
def Taken (conn : ℕ) (link : List UInt8) : Prop :=
  let h := translateHeader link
  h.len ≠ 0 ∧ ¬ (h.serverid = 0 ∧ h.playerid ≠ 0) ∧
    (Blocked env s h ∨
      Queued h ∧ (∀ p, playerGet env (checked env s h) h.pid = some p →
        h.dataLen ≠ 0 ∧ headerSize + h.dataLen ≤ link.length ∧
          DrainSafe env h.pid conn (checked env s h).rest (p.queue ++ [queueItem env s link])) ∨
      ¬ Queued h ∧ Passes env (frameRequest env link) (behindFrame env link) ∧ Answered env s conn link)

section Frame

variable {env} {s : Server σ} {conn : ℕ} {link : List UInt8}

theorem processMessage_of_incomplete (h : ¬ Complete link) :
    processMessage env s conn link = .ok (0, s) := by
  rw [processMessage]
  split
  · rfl
  · dsimp only
    split
    · rfl
    · exact absurd ⟨by omega, by omega⟩ h

theorem processMessage_of_no_server (hc : Complete link)
    (h : (translateHeader link).serverid = 0 ∧ (translateHeader link).playerid ≠ 0) :
    processMessage env s conn link = .ok (0, unloadZombies env s) := by
  have h1 : ¬ link.length < headerSize := Nat.not_lt.2 hc.1
  have h2 : ¬ link.length < (translateHeader link).len := Nat.not_lt.2 hc.2
  simp only [processMessage, h1, h2, h, if_false, if_true, and_self, ne_eq, not_false_eq_true]

section Named

variable (hc : Complete link)
  (hs : ¬ ((translateHeader link).serverid = 0 ∧ (translateHeader link).playerid ≠ 0))
include hc hs

theorem processMessage_of_blocked (hb : Blocked env s (translateHeader link)) :
    processMessage env s conn link = .ok ((translateHeader link).len,
      loadPlayer env (checked env s (translateHeader link)) (translateHeader link).pid) := by
  have h1 : ¬ link.length < headerSize := Nat.not_lt.2 hc.1
  have h2 : ¬ link.length < (translateHeader link).len := Nat.not_lt.2 hc.2
  rw [processMessage, if_neg h1]
  dsimp only
  rw [if_neg h2, if_neg hs]
  exact if_pos hb

theorem processMessage_of_queued (hb : ¬ Blocked env s (translateHeader link))
    (hq : Queued (translateHeader link)) :
    processMessage env s conn link = (do
      let s ← requestQueuePush env
        (playerSetConn env (checked env s (translateHeader link)) (translateHeader link).pid conn)
        (translateHeader link).pid (frameRequest env link) (translateHeader link).dataLen
        (link.length - headerSize)
      let queued := match s.players (translateHeader link).pid with
        | some p => p.queue.length
        | none => 0
      let s ← drain env (queued + 1) s (translateHeader link).pid
      return ((translateHeader link).len, s)) := by
  have h1 : ¬ link.length < headerSize := Nat.not_lt.2 hc.1
  have h2 : ¬ link.length < (translateHeader link).len := Nat.not_lt.2 hc.2
  have h3 : 0 < (translateHeader link).playerid := by
    by_contra h3
    exact hq.1 (by rw [TranslateHeader.pid, if_neg h3])
  rw [processMessage, if_neg h1]
  dsimp only
  rw [if_neg h2, if_neg hs]
  refine (if_neg hb).trans ?_
  rw [if_pos h3]
  exact if_pos hq

theorem processMessage_of_direct (hb : ¬ Blocked env s (translateHeader link))
    (hq : ¬ Queued (translateHeader link)) :
    processMessage env s conn link = (do
      let (ret, s) ← processRequest env
        (if 0 < (translateHeader link).playerid then
          playerSetConn env (checked env s (translateHeader link)) (translateHeader link).pid conn
        else unloadZombies env s)
        conn (translateHeader link).pid (frameRequest env link) (behindFrame env link)
      return (if ret = 0 then (translateHeader link).len else 0, s)) := by
  have h1 : ¬ link.length < headerSize := Nat.not_lt.2 hc.1
  have h2 : ¬ link.length < (translateHeader link).len := Nat.not_lt.2 hc.2
  rw [processMessage, if_neg h1]
  dsimp only
  rw [if_neg h2, if_neg hs]
  refine (if_neg hb).trans ?_
  exact if_neg hq

theorem processMessage_queued_ok_iff (hb : ¬ Blocked env s (translateHeader link))
    (hq : Queued (translateHeader link)) :
    (∃ s', processMessage env s conn link = .ok ((translateHeader link).len, s')) ↔
      ∀ p, playerGet env (checked env s (translateHeader link)) (translateHeader link).pid = some p →
        (translateHeader link).dataLen ≠ 0 ∧ headerSize + (translateHeader link).dataLen ≤ link.length ∧
          DrainSafe env (translateHeader link).pid conn (checked env s (translateHeader link)).rest
            (p.queue ++ [queueItem env s link]) := by
  rw [processMessage_of_queued hc hs hb hq]
  have hlen := hc.1
  set h := translateHeader link with hh
  cases hp : playerGet env (checked env s h) h.pid with
  | none =>
    have hgone : (checked env s h).players h.pid = none := by
      cases hpl : (checked env s h).players h.pid with
      | none => rfl
      | some p =>
        rw [playerGet_of_loaded env hq.1 hpl] at hp
        cases hp
    have hdrain : drain env 1 (checked env s h) h.pid = .ok (checked env s h) :=
      drain_of_offline (by rw [hgone]; intro conn queue; exact Option.some_ne_none _ |>.symm)
    rw [playerSetConn_of_unknown env hp, requestQueuePush_of_unknown env hp]
    simp only [ok_bind, hgone, hdrain]
    exact iff_of_true ⟨_, rfl⟩ (by rintro p ⟨⟩)
  | some p =>
    have hp' := setPlayer_players_self (checked env s h) h.pid (some ⟨some conn, p.queue⟩)
    set s₁ := ((checked env s h).setPlayer h.pid (some ⟨some conn, p.queue⟩)).push h.pid ⟨some conn, p.queue⟩
      (frameRequest env link) with hs₁
    have hp₁ : s₁.players h.pid = some ⟨some conn, p.queue ++ [queueItem env s link]⟩ :=
      Function.update_self ..
    have hsafe := drain_ok_iff env hq.1 _ s₁ _ hp₁ (Nat.lt_succ_self _)
    rw [playerSetConn_of_known env hp]
    constructor
    · rintro ⟨s', hs'⟩ q hpq
      cases hpq
      obtain ⟨s₂, hpush, hrun⟩ := bind_ok_iff.1 hs'
      obtain ⟨hbody, hroom, rfl⟩ := requestQueuePush_ok env hq.1 hp' hpush
      rw [hp₁] at hrun
      obtain ⟨s₃, hdrain, -⟩ := bind_ok_iff.1 hrun
      exact ⟨hbody, by omega, hsafe.1 ⟨s₃, hdrain⟩⟩
    · intro hall
      obtain ⟨hbody, hroom, hdrain⟩ := hall p rfl
      obtain ⟨s₃, hs₃⟩ := hsafe.2 hdrain
      refine ⟨s₃, ?_⟩
      rw [requestQueuePush_of_body env hq.1 hp' hbody (by omega), ok_bind, hp₁]
      exact bind_ok_iff.2 ⟨s₃, hs₃, rfl⟩

theorem processMessage_direct_ok_iff (hlen : (translateHeader link).len ≠ 0)
    (hb : ¬ Blocked env s (translateHeader link)) (hq : ¬ Queued (translateHeader link)) :
    (∃ s', processMessage env s conn link = .ok ((translateHeader link).len, s')) ↔
      Passes env (frameRequest env link) (behindFrame env link) ∧ Answered env s conn link := by
  rw [processMessage_of_direct hc hs hb hq]
  have hrest : (if 0 < (translateHeader link).playerid then
      playerSetConn env (checked env s (translateHeader link)) (translateHeader link).pid conn
      else unloadZombies env s).rest = if 0 < (translateHeader link).playerid then
        (env.canLogin s.rest (translateHeader link).pid).2 else s.rest := by
    split
    · exact playerSetConn_rest env _ _ _
    · rfl
  by_cases hpass : Passes env (frameRequest env link) (behindFrame env link)
  · rw [processRequest_of_passes hpass, hrest, Answered]
    simp only [hpass, true_and]
    constructor
    · rintro ⟨s', hs'⟩
      obtain ⟨answer, hreq, -⟩ := bind_ok_iff.1 hs'
      obtain ⟨done, hdone, -⟩ := bind_ok_iff.1 hreq
      exact ⟨done, hdone⟩
    · rintro ⟨done, hdone⟩
      rw [hdone]
      exact ⟨_, rfl⟩
  refine iff_of_false ?_ fun h => hpass h.1
  rintro ⟨s', hs'⟩
  obtain ⟨⟨ret, s₁⟩, hret, heq⟩ := bind_ok_iff.1 hs'
  by_cases hf : Overruns (frameRequest env link)
  · obtain ⟨e, he⟩ := hf.processRequest _ conn _ (behindFrame env link)
    rw [he] at hret
    cases hret
  · rw [processRequest_of_fails hpass hf] at hret
    cases hret
    simp only [pure_eq_ok, ok_pair_iff] at heq
    exact hlen heq.1.symm

end Named

theorem framesLink_iff_of_complete (hc : Complete link) :
    FramesLink env s conn link ↔ (translateHeader link).len ≠ 0 ∧
      ∃ s', processMessage env s conn link = .ok ((translateHeader link).len, s') := by
  constructor
  · rintro ⟨hzero, htaken⟩
    obtain ⟨s', hs'⟩ := htaken hc
    refine ⟨fun hlen => ?_, s', hs'⟩
    rw [hlen] at hs'
    exact hzero s' hs' hc
  · rintro ⟨hlen, s', hs'⟩
    refine ⟨fun s'' hs'' => ?_, fun _ => ⟨s', hs'⟩⟩
    rw [hs', ok_pair_iff] at hs''
    exact absurd hs''.1 hlen

end Frame

/-- `process_message` frames a link exactly on the bytes that start with no whole frame, or with one that
is taken. -/
theorem framesLink_iff (conn : ℕ) (link : List UInt8) :
    FramesLink env s conn link ↔ (Complete link → Taken env s conn link) := by
  by_cases hc : Complete link
  · rw [framesLink_iff_of_complete hc]
    refine Iff.trans ?_ ⟨fun h _ => h, fun h => h hc⟩
    refine and_congr_right fun hlen => ?_
    by_cases hs : (translateHeader link).serverid = 0 ∧ (translateHeader link).playerid ≠ 0
    · refine iff_of_false ?_ fun h => h.1 hs
      rintro ⟨s', hs'⟩
      rw [processMessage_of_no_server hc hs, ok_pair_iff] at hs'
      exact hlen hs'.1.symm
    by_cases hb : Blocked env s (translateHeader link)
    · exact iff_of_true ⟨_, processMessage_of_blocked hc hs hb⟩ ⟨hs, .inl hb⟩
    by_cases hq : Queued (translateHeader link)
    · rw [processMessage_queued_ok_iff hc hs hb hq]
      simp only [hs, hb, hq, not_false_eq_true, true_and, false_or, not_true, false_and, or_false]
    · rw [processMessage_direct_ok_iff hc hs hlen hb hq]
      simp only [hs, hb, hq, not_false_eq_true, true_and, false_or, false_and]
  · exact iff_of_true ⟨fun _ _ => hc, fun h => absurd h hc⟩ fun h => absurd h hc

/-! ## Frames that are not taken -/

def quietEnv : Env Unit where
  canLoad _ _ := true
  canLogin _ _ := (true, ())
  expired _ _ := false
  handle _ _ := .ok (fun _ => .kept, ())
  stale := ⟨0, 0⟩
  beyond _ := 0
  behind _ _ _ := 0

def Server.start (rest : σ) : Server σ := ⟨fun _ => none, rest, fun _ => 0, fun _ => []⟩

/-- A frame that names player 1 and no server is answered with 0, and so is a login with the unknown flag
3; a query without a body fails the assertion of `request_queue_push`. -/
theorem complete_frames_not_taken :
    ¬ FramesLink quietEnv (.start ()) 7
        [0, 0, 0, 28, 0, 0, 0, 0, 0, 0, 0, 1, 0, 0, 0, 0, 0, 0, 0, 1, 0, 0, 0, 5, 0, 0, 0, 0] ∧
      ¬ FramesLink quietEnv (.start ()) 7
        [0, 0, 0, 28, 0, 0, 0, 0, 0, 0, 0, 1, 0, 0, 0, 0, 0, 0, 0, 3, 0, 0, 0, 1, 0, 0, 0, 1] ∧
      processMessage quietEnv (.start ()) 7
        [0, 0, 0, 28, 0, 0, 0, 0, 0, 0, 0, 1, 0, 0, 0, 0, 0, 0, 0, 1, 0, 0, 0, 5, 0, 0, 0, 1] =
          .error .assertion := by
  refine ⟨fun h => h.1 _ rfl ?_, fun h => h.1 _ rfl ?_, rfl⟩
  · exact ⟨by decide, by decide⟩
  · exact ⟨by decide, by decide⟩

end CServer.World
