import CServer.Gateway.SessionBindings

/-! # Logout requests at the end of a session

`ended` lists the sessions that have ended, with the logout requests that went to the world for each of them.
-/
namespace CServer.Gateway.Sessions
open CServer.Lib List Function

variable {s : Sessions} {x y : Option ℕ} {how : Ending} {conn a now : ℕ} {c : ClientRecord}

/-! ## Where sessions end -/

theorem leaving_idle (h : s.translating conn = none) : s.leaving how conn = [] := by
  unfold leaving
  split
  · next a hc =>
    rw [translating_of_conns hc] at h
    cases h
  · rfl

theorem leaving_eq (ht : s.translating conn = some a) (hc : s.clients a = some c) :
    s.leaving how conn = [⟨c.playerid, how, c.logouts⟩] := by
  unfold leaving
  rw [conns_of_translating ht]
  simp only [hc]

theorem agNClose_ended (h : s.translating conn = none) : (s.agNClose how conn).ended = s.ended := by
  show s.leaving how conn ++ s.ended = s.ended
  rw [leaving_idle h, nil_append]

theorem cleanLoop_ended (now : ℕ) (ws : List WaitingClient) :
    ∀ {s : Sessions}, Linked x y s → s.wqueue = ws → (cleanLoop now ws s).ended = s.ended := by
  induction ws with
  | nil => exact fun _ _ => rfl
  | cons w rest ih =>
    intro s h hq
    rw [cleanLoop]
    by_cases he : expired now w = true
    · have hidle : s.translating w.conn = none := h.idle _ _ (wmap_head h.indexed hq)
      rw [if_pos he, ih (dropWaiting_linked h hq) rfl]
      exact @agNClose_ended { s with wqueue := rest, wmap := update s.wmap w.conn none } .closed w.conn hidle
    · rw [if_neg he]

theorem startAuth_ended (h : Linked none y s) (hc : s.clients a = some c) :
    (s.startAuth how now c.conn).ended = ⟨c.playerid, how, c.logouts⟩ :: s.ended := by
  have hs := cleanLoop_swept now s.wqueue s
  have hkeep := @clean_conns s c.conn now (not_expires h.indexed (h.waitless hc))
  have ht : (s.newWaitingClient now c.conn).translating c.conn = some a :=
    (translating_congr hkeep).trans (h.bound a c hc (Option.some_ne_none a))
  have hcl : (s.newWaitingClient now c.conn).clients a = some c := (congrFun hs.clients a).trans hc
  show (s.newWaitingClient now c.conn).leaving how c.conn ++ (s.cleanWaitingClient now).ended = _
  rw [leaving_eq ht hcl, cleanWaitingClient, cleanLoop_ended now s.wqueue h rfl]
  rfl

/-- The logout requests of a session that ends with another one, if it is sent. -/
def ClientRecord.total (c : ClientRecord) (world : ToWorld) : ℕ := c.logouts + if world = .sent then 1 else 0

theorem loggedOut_ended (world : ToWorld) (h : Linked none y s) (hc : s.clients a = some c) :
    (s.loggedOut now a c world).ended = ⟨c.playerid, .closed, ClientRecord.total c world⟩ :: s.ended := by
  unfold loggedOut ClientRecord.total
  by_cases hworld : world = .sent
  · rw [if_pos hworld, if_pos hworld]
    exact @startAuth_ended (s.logoutSent a c) y .closed a now { c with logouts := c.logouts + 1 } (logoutSent_linked h hc)
      (update_self ..)
  · rw [if_neg hworld, if_neg hworld]
    exact startAuth_ended h hc

/-! ## Exactly one -/

def Logged (s : Sessions) : Prop := ∀ e ∈ s.ended, e.how = .closed → e.logouts = 1

theorem Logged.cons {s' : Sessions} {e : EndedSession} (h : s.Logged) (he : e.how = .closed → e.logouts = 1)
    (hended : s'.ended = e :: s.ended) : s'.Logged := by
  intro e' he'
  rw [hended] at he'
  obtain rfl | he' := mem_cons.mp he'
  · exact he
  · exact h e' he'

theorem Logged.congr {s' : Sessions} (h : s.Logged) (hended : s'.ended = s.ended) : s'.Logged := by
  intro e he
  rw [hended] at he
  exact h e he

def EndsOnce (c : ClientRecord) : ClientMessage → Prop
  | .malformed => c.logouts = 1
  | .unknownFlag world => ClientRecord.total c world = 1
  | _ => True

instance (c : ClientRecord) (m : ClientMessage) : Decidable (EndsOnce c m) := by
  unfold EndsOnce
  cases m <;> infer_instance

/-- Whether a connection closes or a message closes it: the logout request that is sent, or has been sent by the client, is
the only one of the session. -/
def Ends (s : Sessions) (e : ℕ × GatewayEvent) : Prop :=
  match e.2 with
  | .message conn _ m => ∀ c ∈ (s.translating conn).bind s.clients, EndsOnce c m
  | .closed conn world => ∀ c ∈ (s.translating conn).bind s.clients, ClientRecord.total c world = 1
  | .authRespond _ (.pass pid first) => EndsOnce ⟨0, pid, 0⟩ first
  | _ => True

instance (s : Sessions) : (e : ℕ × GatewayEvent) → Decidable (s.Ends e)
  | ⟨_, .message conn _ m⟩ => inferInstanceAs (Decidable (∀ c ∈ (s.translating conn).bind s.clients, EndsOnce c m))
  | ⟨_, .closed conn world⟩ =>
    inferInstanceAs (Decidable (∀ c ∈ (s.translating conn).bind s.clients, ClientRecord.total c world = 1))
  | ⟨_, .authRespond _ (.pass pid first)⟩ => inferInstanceAs (Decidable (EndsOnce ⟨0, pid, 0⟩ first))
  | ⟨_, .authRespond _ .fail⟩ | ⟨_, .authRespond _ .noAccount⟩ | ⟨_, .accept _⟩ | ⟨_, .authserverUpdate⟩
  | ⟨_, .world _ _⟩ | ⟨_, .cleanClient⟩ => .isTrue trivial

theorem Served.logged {m : ClientMessage} {s' : Sessions} (hl : Linked none y s) (hc : s.clients a = some c)
    (hm : EndsOnce c m) (h : s.Logged) (hs : Served now a c s m s') : s'.Logged := by
  have ht := hl.bound a c hc (Option.some_ne_none a)
  cases hs with
  | stays => exact h
  | logout => exact h
  | malformed =>
    refine h.cons (e := ⟨c.playerid, .closed, c.logouts⟩) (fun _ => hm) ?_
    show s.leaving .closed c.conn ++ s.ended = _
    rw [leaving_eq ht hc]
    rfl
  | unknownFlag world =>
    have hout := @loggedOut_linked s y a c now world hl hc
    exact h.cons (e := ⟨c.playerid, .closed, ClientRecord.total c world⟩) (fun _ => hm)
      ((agNClose_ended hout.2).trans (loggedOut_ended world hl hc))

theorem timeoutLoop_ended (now : ℕ) (rs : List Rpc) : ∀ {s : Sessions},
    (∀ r ∈ rs.takeWhile (timedOut now), r.conn.bind s.translating = none) → (timeoutLoop now rs s).ended = s.ended := by
  induction rs with
  | nil => exact fun _ => rfl
  | cons r rest ih =>
    intro s hidle
    rw [timeoutLoop]
    by_cases ht : timedOut now r = true
    · rw [takeWhile_cons, if_pos ht] at hidle
      have hhead := hidle r mem_cons_self
      rw [if_pos ht]
      cases hconn : r.conn with
      | none => exact @ih (s.removeRpc r.sn) fun r' hr' => hidle r' (mem_cons_of_mem _ hr')
      | some conn =>
        rw [hconn] at hhead
        refine (ih fun r' hr' => ?_).trans (@agNClose_ended (s.removeRpc r.sn) .closed conn hhead)
        have hi := hidle r' (mem_cons_of_mem _ hr')
        cases hconn' : r'.conn with
        | none => rfl
        | some conn' =>
          rw [hconn'] at hi
          exact @agNClose_translating_none (s.removeRpc r.sn) .closed conn conn' hi
    · rw [if_neg ht]

theorem Outcome.logged {e : ℕ × GatewayEvent} {s' : Sessions} (h : Linked none none s) (hx : s.Logged) (hb : s.Binds e)
    (he : s.Ends e) (ho : Outcome e.1 s e.2 s') : s'.Logged := by
  obtain ⟨now, e⟩ := e
  have hauth : ∀ conn, s.conns conn = some ⟨false, .authenticating⟩ → s.translating conn = none :=
    fun conn hc => translating_of_isAuthenticating (isAuthenticating_of_conns (.inl hc))
  cases ho with
  | nothing => exact hx
  | @accepted conn hc =>
    refine hx.congr ?_
    have hl := added_linked h hc
    have hidle : ((s.added conn).newWaitingClient now conn).translating conn = none :=
      (translating_congr (clean_conns (not_expires hl.indexed (hb hc)))).trans
        (translating_of_isAuthenticating (isAuthenticating_of_conns (.inl (update_self ..))))
    show ((s.added conn).newWaitingClient now conn).leaving .closed conn ++ ((s.added conn).cleanWaitingClient now).ended = _
    rw [leaving_idle hidle, nil_append, cleanWaitingClient, cleanLoop_ended now _ hl rfl]
    rfl
  | refused hc => exact hx.congr (agNClose_ended (hauth _ hc))
  | @requested conn sent m hc =>
    refine hx.congr ?_
    cases sent with
    | true => rfl
    | false =>
      refine agNClose_ended (s := (s.newRpc now conn).agNSetHandler conn (.authserver (s.sn + 1))) ?_
      have hself := @agNSetHandler_conns_self (s.newRpc now conn) conn (.authserver (s.sn + 1)) .authenticating false hc
      exact translating_of_isAuthenticating (isAuthenticating_of_conns (.inr ⟨_, hself⟩))
  | @served conn a auth m c s' ht hc hconn hs =>
    exact hs.logged h hc (he c (by rw [ht]; exact hc)) hx
  | closedAuth hc => exact hx.congr (agNClose_ended (hauth _ hc))
  | @closedRequest conn sn world hc =>
    exact hx.congr (@agNClose_ended (s.forgotten sn) .closed conn
      (translating_of_isAuthenticating (isAuthenticating_of_conns (.inr ⟨sn, hc⟩))))
  | @closedSession conn a world c ht hc hconn =>
    obtain ⟨-, hidle⟩ := @loggedOut_linked s none a c now world h hc
    rw [hconn] at hidle
    exact hx.cons (e := ⟨c.playerid, .closed, ClientRecord.total c world⟩) (fun _ => he c (by rw [ht]; exact hc))
      ((agNClose_ended hidle).trans (loggedOut_ended world h hc))
  | dropped hr hconn => exact hx
  | @failed sn conn result r hr hconn hresult =>
    have hidle : s.translating conn = none := by
      have hrb := hb conn (by rw [hr]; exact hconn)
      cases result with
      | pass pid first => exact absurd rfl (hresult pid first)
      | fail => exact hrb
      | noAccount => exact hrb
    exact hx.congr (agNClose_ended hidle)
  | @passed sn conn pid a first r c s₁ s' hr hconn htaken hs =>
    obtain ⟨ha, -, htakes⟩ := hb conn (by rw [hr]; exact hconn)
    obtain ⟨h₁, hc, hidle, ha₁, -⟩ := htaken.linked h ha htakes
    have hx₁ : s₁.Logged := by
      cases htaken with
      | new hash hnew =>
        obtain ⟨-, rfl⟩ := clientNew_eq hnew
        exact hx
      | old hash hold =>
        exact hx.cons (e := ⟨c.playerid, .takenOver, c.logouts⟩) (fun hn => nomatch hn) (startAuth_ended h hold)
    have hfirst : EndsOnce { c with conn := conn, logouts := 0 } first := by
      have hf : EndsOnce ⟨0, pid, 0⟩ first := he
      cases first with
      | malformed => exact hf
      | unknownFlag world => exact hf
      | _ => trivial
    have hlogged := hs.logged (bind_linked h₁ hc hidle ha₁) (update_self ..) hfirst hx₁
    exact hlogged
  | timedOut => exact hx.congr (timeoutLoop_ended now s.rpcs hb)
  | @kicked pid a c hc =>
    refine hx.cons (e := ⟨c.playerid, .world, c.logouts⟩) (fun hn => nomatch hn) ?_
    show s.leaving .world c.conn ++ s.ended = _
    rw [leaving_eq (h.bound a c hc (Option.some_ne_none a)) hc]
    rfl
  | cleaned => exact hx

/-! ## Runs -/

/-- Every session that a closed connection has ended has had one logout request, and every record has a live
connection. -/
structure NoGhosts (s : Sessions) : Prop where
  once : s.Logged
  live : ∀ a c, s.clients a = some c → ∃ h, s.conns c.conn = some ⟨false, h⟩

/-- All along a run in which no step meets a slip of the table, and no connection ends a session without exactly one logout
request, there is no session without a connection. -/
theorem no_ghost_sessions (events : List (ℕ × GatewayEvent))
    (hrun : Along step (fun s e => s.Binds e ∧ s.Ends e) init events) :
    (∃ s, run step init events = .ok s) ∧ Throughout step NoGhosts init events := by
  have hinit : Linked none none init ∧ init.Logged := ⟨init_linked, fun _ he => nomatch he⟩
  have hkeep : ∀ s e s', Linked none none s ∧ s.Logged → s.Binds e ∧ s.Ends e → s.step e = .ok s' →
      Linked none none s' ∧ s'.Logged := by
    intro s e s' h hg hs'
    have ho := outcome_of_step h.1 hg.1 hs'
    exact ⟨ho.linked h.1 hg.1, ho.logged h.1 h.2 hg.1 hg.2⟩
  have hgood : ∀ s : Sessions, Linked none none s ∧ s.Logged → s.NoGhosts :=
    fun s h => ⟨h.2, fun a c hc => ⟨_, conns_of_translating (h.1.bound a c hc (Option.some_ne_none a))⟩⟩
  exact ⟨(sessions_bound events (hrun.imp fun _ _ hg => hg.1)).1, run_throughout hgood hkeep events init hinit hrun⟩

theorem no_ghost_sessions_peer_closes :
    Throughout step NoGhosts init
      [(0, .accept 1), (1, .message 1 (.login true) .incomplete), (1, .authRespond 1 (.pass 7 (.toWorld false .sent))),
        (2, .accept 2), (3, .message 2 (.login true) .incomplete), (3, .authRespond 2 (.pass 7 (.toWorld false .sent))),
        (4, .closed 2 .sent), (4, .cleanClient), (5, .accept 3), (20, .accept 4)] := by
  refine (no_ghost_sessions _ ?_).2
  decide +kernel

theorem ghost_of_run {s s' : Sessions} {events : List (ℕ × GatewayEvent)} (hrun : run step s events = .ok s')
    (hghost : (∃ e ∈ s'.ended, e.how = .closed ∧ e.logouts ≠ 1) ∨
      ∃ a c, s'.clients a = some c ∧ ∀ h, s'.conns c.conn ≠ some ⟨false, h⟩) :
    ¬ Throughout step NoGhosts s events := by
  intro h
  obtain ⟨honce, hlive⟩ := h.last hrun
  obtain ⟨e, he, hclosed, hne⟩ | ⟨a, c, hc, hdead⟩ := hghost
  · exact hne (honce e he hclosed)
  · obtain ⟨hd, hd'⟩ := hlive a c hc
    exact hdead hd hd'

/-- A message that is no AMF array ends the session without a logout request. A reply that comes after the sweep has closed
the connection makes a record, and logs in, for nobody. -/
theorem ghost_sessions :
    ¬ Throughout step NoGhosts init
      [(0, .accept 1), (1, .message 1 (.login true) .incomplete), (1, .authRespond 1 (.pass 7 (.toWorld false .sent))),
        (2, .message 1 .text .malformed)] ∧
    ¬ Throughout step NoGhosts init
      [(0, .accept 1), (9, .message 1 (.login true) .incomplete), (11, .accept 2),
        (12, .authRespond 1 (.pass 7 (.toWorld false .sent)))] := by
  constructor
  · exact ghost_of_run rfl (.inl ⟨_, mem_cons_self, rfl, by decide⟩)
  · exact ghost_of_run rfl (.inr ⟨2, ⟨1, 7, 0⟩, rfl, fun _ hn => nomatch hn⟩)

end CServer.Gateway.Sessions
