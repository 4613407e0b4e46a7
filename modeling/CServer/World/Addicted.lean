import CServer.Lib.Memory
import CServer.Lib.Exec

/-! # `world/addicted.c`: how long a minor has played

Of a player on whom the check is on, `Property` has three stamps: the last login, the last logout, and how long
the sessions before have lasted. The handlers that write them are those of a message from the gateway, of the
two commands `C_LOGIN_REQUEST` and `C_LOGOUT_REQUEST`, of a kick, and of the timer that kicks.
-/
namespace CServer.World
open CServer.Lib

structure AddictedConfig where
  enable : Bool
  kickTime : ℕ
  restTime : ℕ

inductive AddictedInfo
  | adultPlayer
  | checking
  deriving DecidableEq

/-- The stamps of `struct Property`, and whether its `status` has `PLAYER_STATUS_BAN`. -/
structure PlayTime where
  login : ℕ
  logout : ℕ
  played : ℕ
  banned : Bool

/-- Of a player: the stamps, the entry in `players`, and the connection, `none` while `player_get_online` finds nobody.
His id is the parameter `pid` of what follows. -/
structure PlayerSession where
  property : PlayTime
  info : Option AddictedInfo
  conn : Option ℕ

inductive SessionCommand
  | login (pidMatches : Bool)
  | logout
  | ordinary
  deriving DecidableEq

namespace PlayerSession

/-- `agT_current() - property->logout` as an `unsigned int`. -/
def rest (s : PlayerSession) (now : ℕ) : ℕ := (now + 2 ^ 32 - s.property.logout % 2 ^ 32) % 2 ^ 32

def updatePlayed (s : PlayerSession) (played : ℕ) : PlayerSession := { s with property := { s.property with played := played } }

variable (cfg : AddictedConfig)

/-- `DATA_Property_update_played(property, 0)` in `addicted_can_login` is reached. -/
def Resets (s : PlayerSession) (now : ℕ) : Prop :=
  s.property.played ≠ 0 ∧ cfg.restTime ≤ s.rest now

instance  (s : PlayerSession) (now : ℕ) : Decidable (Resets cfg s now) :=
  inferInstanceAs (Decidable (_ ∧ _))

def addictedCanLogin (now : ℕ) (s : PlayerSession) : Bool × PlayerSession :=
  if cfg.enable = false then (true, s)
  else if s.info = some .adultPlayer then (true, s)
  else
    let s := if Resets cfg s now then s.updatePlayed 0 else s
    if cfg.kickTime ≤ s.property.played then (false, s) else (true, s)

def addictedLogin (s : PlayerSession) : PlayerSession :=
  if cfg.enable = false then s
  else
    match s.info with
    | none => { s with info := some .checking }
    | some _ => s

def addictedLogout (now : ℕ) (s : PlayerSession) : PlayerSession :=
  if cfg.enable = false then s
  else
    match s.info with
    | none => s
    | some .adultPlayer => s
    | some .checking =>
      let s := { s with info := none }
      if s.conn = none then s
      else if s.property.logout < s.property.login then
        s.updatePlayed (s.property.played + (now - s.property.login))
      else s

def addictedSetAdult (s : PlayerSession) : PlayerSession := { s with info := some .adultPlayer }

def addictedSetMinority (s : PlayerSession) : PlayerSession :=
  if s.info = some .checking then s else addictedLogin cfg { s with info := none }

def playerUnload (s : PlayerSession) : PlayerSession := { s with conn := none }

/-- `aL_login`. `young` is whether the player is in `force_young_player`, `pidMatches` whether the token is one of
the player; the last status is that of the player's property. -/
def alLogin (young : Bool) (now : ℕ) (pidMatches : Bool) (s : PlayerSession) : PlayerSession :=
  if pidMatches = false then s
  else
    let enter (s : PlayerSession) : PlayerSession :=
      if s.property.banned then playerUnload s
      else { s with property := { s.property with login := now } }
    if young = false then enter (addictedSetAdult s)
    else
      match addictedCanLogin cfg now s with
      | (false, s) => playerUnload s
      | (true, s) =>
        match addictedCanLogin cfg now (addictedSetMinority cfg s) with
        | (false, s) => playerUnload s
        | (true, s) => enter s

/-- `player_set_conn(playerid, INVALID_ID)`. The id is an `unsigned int` in `agPM_SetOffline`, which does not find a player
whose id has a server in its high word. -/
def setOffline (pid : ℕ) (s : PlayerSession) : PlayerSession :=
  { s with conn := if pid % 2 ^ 32 = pid then none else s.conn }

def alLogout (pid now : ℕ) (s : PlayerSession) : PlayerSession :=
  let s := addictedLogout cfg now s
  if s.conn = none then s
  else setOffline pid { s with property := { s.property with logout := now } }

def kickPlayer (pid now : ℕ) (s : PlayerSession) : PlayerSession := alLogout cfg pid now s

def Kicks (s : PlayerSession) (now : ℕ) : Prop :=
  cfg.kickTime + 3 + s.property.login ≤ s.property.played + now ∧ 0 < s.property.login

instance  (s : PlayerSession) (now : ℕ) : Decidable (Kicks cfg s now) :=
  inferInstanceAs (Decidable (_ ∧ _))

def checkPlayer (pid now : ℕ) (s : PlayerSession) : PlayerSession :=
  match s.info with
  | some .checking =>
    if s.conn = none then { s with info := none }
    else if Kicks cfg s now then kickPlayer cfg pid now s
    else s
  | _ => s

def processMessage (pid : ℕ) (young : Bool) (now conn : ℕ) (command : SessionCommand)
    (s : PlayerSession) : PlayerSession :=
  let serve (s : PlayerSession) : PlayerSession :=
    let s := { s with conn := some conn }
    match command with
    | .login pidMatches => alLogin cfg young now pidMatches s
    | .logout => alLogout cfg pid now s
    | .ordinary => s
  match addictedCanLogin cfg now s with
  | (false, s) => if command = .ordinary then s else serve s
  | (true, s) => serve (addictedLogin cfg s)

end PlayerSession

/-! ## Runs -/

inductive AddictedAct
  | message (conn : ℕ) (command : SessionCommand)
  | kick
  | check

/-- Whether the player is online, since when, when he was last online before, and for how long in the sessions that have
ended since he last rested. -/
structure OnlineTime where
  here : Bool
  since : ℕ
  ended : ℕ
  total : ℕ

/-- `online` is not in the source: it is the history of the acts. -/
structure AddictedState where
  now : ℕ
  session : PlayerSession
  online : OnlineTime

namespace AddictedState
variable (cfg : AddictedConfig)

def act (pid : ℕ) (young : Bool) (now : ℕ) : AddictedAct → PlayerSession → PlayerSession
  | .message conn command => PlayerSession.processMessage cfg pid young now conn command
  | .kick => PlayerSession.kickPlayer cfg pid now
  | .check => PlayerSession.checkPlayer cfg pid now

/-- A player is online from a message of his that is served until he logs out, is kicked, or is unloaded by a login that
is refused. That `player_get_online` goes on finding him after a logout does not count. -/
def isHere (now : ℕ) (before after : PlayerSession) (here : Bool) : AddictedAct → Bool
  | .message _ (.login _) => after.conn.isSome
  | .message _ .logout => false
  | .message _ .ordinary => here || (PlayerSession.addictedCanLogin cfg now before).1
  | .kick => false
  | .check => here && !(decide (before.info = some .checking) && decide (before.Kicks cfg now))

/-- A player who comes online after an offline gap of `restTime` has not been online since the gap. -/
def observe (now : ℕ) (here : Bool) (o : OnlineTime) : OnlineTime :=
  match o.here, here with
  | false, true => { o with here := true, since := now, total := if cfg.restTime ≤ now - o.ended then 0 else o.total }
  | true, false => { o with here := false, ended := now, total := o.total + (now - o.since) }
  | _, _ => o

def step (pid : ℕ) (young : Bool) (s : AddictedState) (i : ℕ × AddictedAct) : Except Fault AddictedState :=
  let now := s.now + i.1
  let session := act cfg pid young now i.2 s.session
  .ok ⟨now, session, observe cfg now (isHere cfg now s.session session s.online.here i.2) s.online⟩

variable (s : AddictedState)

/-- How long the player has been online since the last continuous offline gap of at least `restTime`. -/
def onlineTime (now : ℕ) : ℕ :=
  if s.online.here then s.online.total + (now - s.online.since)
  else if cfg.restTime ≤ now - s.online.ended then 0 else s.online.total

/-- `property->played`, and `PLAYED` of a player who is online. -/
def countedTime (now : ℕ) : ℤ :=
  if s.online.here then s.session.property.played + now - s.session.property.login else s.session.property.played

/-- Now and until the next step no played time is missing. -/
def Counted : Prop := ∀ now, s.now ≤ now → (s.onlineTime cfg now : ℤ) ≤ s.countedTime now

/-- If the player is online: a message does not reset what he has played since he last rested; he logs in in the second
in which he came online, and is not refused; and a logout finds him checked, with a login after the logout before, or
ends a session that has lasted for no time. -/
def Continues (i : ℕ × AddictedAct) : Prop :=
  let now := s.now + i.1
  let p := s.session.property
  let ends : Prop := s.session.info = some .checking ∧ p.logout < p.login ∨ s.online.since = now
  s.online.here = false ∨
    match i.2 with
    | .message _ (.login pidMatches) => (s.session.Resets cfg now → s.online.total = 0) ∧
        (pidMatches = true → s.online.since = now ∧ p.banned = false ∧ p.played < cfg.kickTime)
    | .message _ .logout => (s.session.Resets cfg now → s.online.total = 0) ∧ ends
    | .message _ .ordinary => s.session.Resets cfg now → s.online.total = 0
    | .kick => ends
    | .check => s.session.Kicks cfg now → ends

instance  (i : ℕ × AddictedAct) : Decidable (Continues cfg s i) := by
  unfold Continues
  split <;> infer_instance

/-- Before the run: the player is offline, and no stamp lies ahead. -/
def start (now : ℕ) (property : PlayTime) : AddictedState := ⟨now, ⟨property, none, none⟩, ⟨false, 0, 0, 0⟩⟩

/-! ## What a step does to the stamps -/

/-- What `addicted_can_login` leaves of the time played. -/
def Checked (now p : ℕ) : Prop :=
  p = s.session.property.played ∨
    p = 0 ∧ s.session.Resets cfg now ∧ (s.online.here = true → s.online.total = 0)

/-- The session after a step, and whether the player is online: nothing but what is played has changed, the player has
come online without a login, has logged in, or has gone offline with a logout. -/
inductive Moved (s : AddictedState) (now : ℕ) : Bool → PlayerSession → Prop
  | stays {p : ℕ} {info : Option AddictedInfo} {conn : Option ℕ} {here : Bool} (hinfo : info ≠ some .adultPlayer)
      (hhere : here = s.online.here) (hconn : here = true → conn ≠ none) (hp : Checked cfg s now p) :
      Moved s now here ⟨{ s.session.property with played := p }, info, conn⟩
  | enters {p : ℕ} {info : Option AddictedInfo} {conn : ℕ} (hinfo : info ≠ some .adultPlayer)
      (hp : Checked cfg s now p) : Moved s now true ⟨{ s.session.property with played := p }, info, some conn⟩
  | logsIn {p : ℕ} {info : Option AddictedInfo} {conn : ℕ} (hinfo : info ≠ some .adultPlayer)
      (hsince : s.online.here = false ∨ s.online.since = now) (hp : Checked cfg s now p) :
      Moved s now true ⟨{ s.session.property with played := p, login := now }, info, some conn⟩
  | logsOut {p gained : ℕ} {info : Option AddictedInfo} {conn : Option ℕ} (hinfo : info ≠ some .adultPlayer)
      (hgained : s.online.here = false ∨ gained = now - s.session.property.login ∨ s.online.since = now)
      (hp : Checked cfg s now p) :
      Moved s now false ⟨{ s.session.property with played := p + gained, logout := now }, info, conn⟩

/-- Of a minor. Online, the login is stamped no later than he came online; offline, what has been played is kept until
he has rested. -/
structure Accounted (s : AddictedState) : Prop where
  login_le : s.session.property.login ≤ s.now
  logout_le : s.session.property.logout ≤ s.now
  minor : s.session.info ≠ some .adultPlayer
  ended_le : s.online.ended ≤ s.session.property.logout
  found : s.online.here = true → s.session.conn ≠ none
  online : s.online.here = true → s.session.property.login ≤ s.online.since ∧ s.online.since ≤ s.now ∧
    s.online.total ≤ s.session.property.played
  offline : s.online.here = false →
    s.online.total ≤ s.session.property.played ∨ cfg.restTime ≤ s.now - s.online.ended

section Step
variable {cfg} {s : AddictedState}

@[simp] theorem observe_here (now : ℕ) (here : Bool) (o : OnlineTime) : (observe cfg now here o).here = here := by
  unfold observe
  cases ho : o.here <;> cases here <;> simp [ho]

theorem rest_le {s : PlayerSession} {now : ℕ} (h : s.property.logout ≤ now) : s.rest now ≤ now - s.property.logout := by
  unfold PlayerSession.rest
  omega

theorem Checked.total_le {now p : ℕ} (h : Accounted cfg s) (hnow : s.now ≤ now) (hp : Checked cfg s now p) :
    s.online.total ≤ p ∨ s.online.here = false ∧ cfg.restTime ≤ now - s.online.ended := by
  cases hc : s.online.here with
  | true =>
    left
    cases hp with
    | inl hp => exact hp ▸ (h.online hc).2.2
    | inr hp => exact hp.2.2 hc ▸ Nat.zero_le p
  | false =>
    cases hp with
    | inl hp =>
      cases h.offline hc with
      | inl ht => exact .inl (hp ▸ ht)
      | inr hr => exact .inr ⟨rfl, by omega⟩
    | inr hp =>
      have h1 := hp.2.1.2
      have h2 := rest_le (Nat.le_trans h.logout_le hnow)
      have h3 := h.ended_le
      exact .inr ⟨rfl, by omega⟩

theorem accounted_online {now p login : ℕ} {info : Option AddictedInfo} {conn : Option ℕ} (h : Accounted cfg s)
    (hnow : s.now ≤ now) (hinfo : info ≠ some .adultPlayer) (hconn : conn ≠ none) (hp : Checked cfg s now p)
    (hlogin : login = s.session.property.login ∨ login = now ∧ (s.online.here = false ∨ s.online.since = now)) :
    Accounted cfg ⟨now, ⟨{ s.session.property with played := p, login := login }, info, conn⟩,
      observe cfg now true s.online⟩ := by
  have hle := h.login_le
  have hlogout := h.logout_le
  have htotal := hp.total_le h hnow
  have hended := h.ended_le
  have hoff (hf : (observe cfg now true s.online).here = false) : False :=
    Bool.noConfusion ((observe_here now true s.online).symm.trans hf)
  cases hc : s.online.here with
  | false =>
    have ho : observe cfg now true s.online = { s.online with
        here := true, since := now, total := if cfg.restTime ≤ now - s.online.ended then 0 else s.online.total } := by
      simp only [observe, hc]
    rw [ho]
    refine ⟨?_, Nat.le_trans hlogout hnow, hinfo, hended, fun _ => hconn, fun _ => ⟨?_, le_refl _, ?_⟩,
      fun hf => Bool.noConfusion hf⟩
    · show login ≤ now
      omega
    · show login ≤ now
      omega
    · show (if cfg.restTime ≤ now - s.online.ended then 0 else s.online.total) ≤ p
      split
      · exact Nat.zero_le p
      · omega
  | true =>
    have ho : observe cfg now true s.online = s.online := by simp only [observe, hc]
    obtain ⟨hlo, hsince, -⟩ := h.online hc
    have hlogin' : login = s.session.property.login ∨ login = now ∧ s.online.since = now :=
      hlogin.imp_right fun hl => ⟨hl.1, hl.2.resolve_left fun hf => Bool.noConfusion (hc.symm.trans hf)⟩
    refine ⟨?_, Nat.le_trans hlogout hnow, hinfo, ?_, fun _ => hconn, fun _ => ?_, fun hf => (hoff hf).elim⟩
    · show login ≤ now
      omega
    · rw [ho]
      exact hended
    · rw [ho]
      refine ⟨?_, Nat.le_trans hsince hnow, ?_⟩
      · show login ≤ s.online.since
        omega
      · exact htotal.resolve_right fun hn => Bool.noConfusion (hc.symm.trans hn.1)

theorem accounted_offline {now p : ℕ} {info : Option AddictedInfo} {conn : Option ℕ} (h : Accounted cfg s)
    (hnow : s.now ≤ now) (hinfo : info ≠ some .adultPlayer) (hc : s.online.here = false) (hp : Checked cfg s now p) :
    Accounted cfg ⟨now, ⟨{ s.session.property with played := p }, info, conn⟩, observe cfg now false s.online⟩ := by
  have ho : observe cfg now false s.online = s.online := by simp only [observe, hc]
  have hne (ht : s.online.here = true) : False := Bool.noConfusion (hc.symm.trans ht)
  rw [ho]
  refine ⟨Nat.le_trans h.login_le hnow, Nat.le_trans h.logout_le hnow, hinfo, h.ended_le, fun ht => (hne ht).elim,
    fun ht => (hne ht).elim, ?_⟩
  intro _
  exact (hp.total_le h hnow).imp_right And.right

theorem accounted_logout {now p gained : ℕ} {info : Option AddictedInfo} {conn : Option ℕ} (h : Accounted cfg s)
    (hnow : s.now ≤ now) (hinfo : info ≠ some .adultPlayer)
    (hgained : s.online.here = false ∨ gained = now - s.session.property.login ∨ s.online.since = now)
    (hp : Checked cfg s now p) :
    Accounted cfg ⟨now, ⟨{ s.session.property with played := p + gained, logout := now }, info, conn⟩,
      observe cfg now false s.online⟩ := by
  have htotal := hp.total_le h hnow
  have hended := Nat.le_trans h.ended_le (Nat.le_trans h.logout_le hnow)
  have hlogin := Nat.le_trans h.login_le hnow
  have hne (ht : (observe cfg now false s.online).here = true) : False :=
    Bool.noConfusion ((observe_here now false s.online).symm.trans ht)
  cases hc : s.online.here with
  | false =>
    have ho : observe cfg now false s.online = s.online := by simp only [observe, hc]
    rw [ho] at hne ⊢
    refine ⟨hlogin, le_refl _, hinfo, hended, fun ht => (hne ht).elim, fun ht => (hne ht).elim, fun _ => ?_⟩
    exact (htotal.imp_left fun ht => Nat.le_add_right_of_le ht).imp_right And.right
  | true =>
    have ho : observe cfg now false s.online =
        { s.online with here := false, ended := now, total := s.online.total + (now - s.online.since) } := by
      simp only [observe, hc]
    have hnf (hf : s.online.here = false) : False := Bool.noConfusion (hc.symm.trans hf)
    obtain ⟨hlo, -, -⟩ := h.online hc
    have ht := htotal.resolve_right fun hn => hnf hn.1
    have hg := hgained.resolve_left hnf
    refine ⟨hlogin, le_refl _, hinfo, ?_, fun ht => (hne ht).elim, fun ht => (hne ht).elim, fun _ => .inl ?_⟩
    · rw [ho]
    · rw [ho]
      show s.online.total + (now - s.online.since) ≤ p + gained
      omega

theorem Moved.accounted {now : ℕ} {here : Bool} {session : PlayerSession} (h : Accounted cfg s) (hnow : s.now ≤ now)
    (hm : Moved cfg s now here session) : Accounted cfg ⟨now, session, observe cfg now here s.online⟩ := by
  cases hm with
  | stays hinfo hhere hconn hp =>
    cases here with
    | false => exact accounted_offline h hnow hinfo hhere.symm hp
    | true => exact accounted_online h hnow hinfo (hconn rfl) hp (.inl rfl)
  | enters hinfo hp => exact accounted_online h hnow hinfo (Option.some_ne_none _) hp (.inl rfl)
  | logsIn hinfo hsince hp => exact accounted_online h hnow hinfo (Option.some_ne_none _) hp (.inr ⟨rfl, hsince⟩)
  | logsOut hinfo hgained hp => exact accounted_logout h hnow hinfo hgained hp

/-! ## The handlers -/

theorem checking_ne : some AddictedInfo.checking ≠ some .adultPlayer := by decide

theorem unchecked_ne : (none : Option AddictedInfo) ≠ some .adultPlayer := by decide

theorem canLogin_minor (henable : cfg.enable = true) {s : PlayerSession} (hminor : s.info ≠ some .adultPlayer) (now : ℕ) :
    PlayerSession.addictedCanLogin cfg now s =
      (decide ((if s.Resets cfg now then 0 else s.property.played) < cfg.kickTime),
        s.updatePlayed (if s.Resets cfg now then 0 else s.property.played)) := by
  unfold PlayerSession.addictedCanLogin
  rw [if_neg (ne_of_eq_of_ne henable (Bool.noConfusion ·)), if_neg hminor]
  by_cases hr : s.Resets cfg now
  · simp only [if_pos hr]
    by_cases hk : cfg.kickTime ≤ 0
    · rw [if_pos (show cfg.kickTime ≤ (s.updatePlayed 0).property.played from hk), decide_eq_false (by omega)]
    · rw [if_neg (show ¬ cfg.kickTime ≤ (s.updatePlayed 0).property.played from hk), decide_eq_true (by omega)]
  · simp only [if_neg hr]
    by_cases hk : cfg.kickTime ≤ s.property.played
    · rw [if_pos hk, decide_eq_false (by omega)]
      rfl
    · rw [if_neg hk, decide_eq_true (by omega)]
      rfl

theorem addictedLogin_minor (henable : cfg.enable = true) {s : PlayerSession} (hminor : s.info ≠ some .adultPlayer) :
    PlayerSession.addictedLogin cfg s = { s with info := some .checking } := by
  unfold PlayerSession.addictedLogin
  rw [if_neg (ne_of_eq_of_ne henable (Bool.noConfusion ·))]
  obtain ⟨property, info, conn⟩ := s
  cases info with
  | none => rfl
  | some info =>
    cases info with
    | adultPlayer => exact absurd rfl hminor
    | checking => rfl

theorem setMinority_minor (henable : cfg.enable = true) (s : PlayerSession) :
    PlayerSession.addictedSetMinority cfg s = { s with info := some .checking } := by
  unfold PlayerSession.addictedSetMinority
  by_cases h : s.info = some .checking
  · rw [if_pos h, ← h]
  · rw [if_neg h]
    exact addictedLogin_minor henable unchecked_ne

def gained (s : PlayerSession) (now : ℕ) : ℕ :=
  if s.info = some .checking ∧ s.property.logout < s.property.login then now - s.property.login else 0

theorem alLogout_minor (henable : cfg.enable = true) {s : PlayerSession} (hminor : s.info ≠ some .adultPlayer) (pid now : ℕ) :
    PlayerSession.alLogout cfg pid now s =
      if s.conn = none then { s with info := none }
      else ⟨{ s.property with played := s.property.played + gained s now, logout := now }, none,
        if pid % 2 ^ 32 = pid then none else s.conn⟩ := by
  unfold PlayerSession.alLogout PlayerSession.addictedLogout PlayerSession.setOffline gained
  rw [if_neg (ne_of_eq_of_ne henable (Bool.noConfusion ·))]
  obtain ⟨property, info, conn⟩ := s
  cases info with
  | none =>
    simp only [reduceCtorEq, false_and, if_false, Nat.add_zero]
  | some info =>
    cases info with
    | adultPlayer => exact absurd rfl hminor
    | checking =>
      cases conn with
      | none => simp only [if_true]
      | some conn =>
        by_cases hl : property.logout < property.login
        · simp only [reduceCtorEq, if_false, if_pos hl, true_and, PlayerSession.updatePlayed]
        · simp only [reduceCtorEq, if_false, if_neg hl, true_and, Nat.add_zero]

theorem alLogin_minor (henable : cfg.enable = true) {s : PlayerSession} (hminor : s.info ≠ some .adultPlayer) {now : ℕ}
    (hreset : ¬ s.Resets cfg now) :
    PlayerSession.alLogin cfg true now true s =
      if s.property.played < cfg.kickTime then
        if s.property.banned then { s with info := some .checking, conn := none }
        else { s with property := { s.property with login := now }, info := some .checking }
      else { s with conn := none } := by
  have hcheck : PlayerSession.addictedCanLogin cfg now s = (decide (s.property.played < cfg.kickTime), s) := by
    rw [canLogin_minor henable hminor, if_neg hreset]
    rfl
  have hcheck' : PlayerSession.addictedCanLogin cfg now { s with info := some .checking } =
      (decide (s.property.played < cfg.kickTime), { s with info := some .checking }) := by
    have hreset' : ¬ PlayerSession.Resets cfg { s with info := some .checking } now := hreset
    rw [canLogin_minor henable checking_ne, if_neg hreset']
    rfl
  unfold PlayerSession.alLogin
  rw [if_neg (Bool.noConfusion ·), if_neg (Bool.noConfusion ·), hcheck]
  by_cases hk : s.property.played < cfg.kickTime
  · rw [decide_eq_true hk, if_pos hk]
    simp only [setMinority_minor henable]
    rw [hcheck', decide_eq_true hk]
    rfl
  · rw [decide_eq_false hk, if_neg hk]
    rfl

theorem alLogout_moved (henable : cfg.enable = true) (pid : ℕ) {now p : ℕ} {info : Option AddictedInfo} {conn : Option ℕ}
    (hinfo : info ≠ some .adultPlayer) (hconn : conn = none → s.online.here = false) (hp : Checked cfg s now p)
    (hends : s.online.here = false ∨
      (info = some .checking ∧ s.session.property.logout < s.session.property.login ∨ s.online.since = now)) :
    Moved cfg s now false
      (PlayerSession.alLogout cfg pid now ⟨{ s.session.property with played := p }, info, conn⟩) := by
  rw [alLogout_minor henable hinfo]
  by_cases hc : conn = none
  · rw [if_pos hc]
    exact .stays unchecked_ne (hconn hc).symm (fun hf => Bool.noConfusion hf) hp
  · rw [if_neg hc]
    refine .logsOut unchecked_ne ?_ hp
    apply hends.imp_right
    apply Or.imp_left
    intro hcounted
    unfold gained
    exact if_pos hcounted

theorem checked_of_message {now : ℕ} (hreset : s.online.here = false ∨ (s.session.Resets cfg now → s.online.total = 0)) :
    Checked cfg s now (if s.session.Resets cfg now then 0 else s.session.property.played) := by
  by_cases hr : s.session.Resets cfg now
  · rw [if_pos hr]
    exact .inr ⟨rfl, hr, fun ht => hreset.resolve_left (fun hf => Bool.noConfusion (ht.symm.trans hf)) hr⟩
  · rw [if_neg hr]
    exact .inl rfl

theorem not_resets_checked {s : PlayerSession} {now : ℕ} (info : Option AddictedInfo) (conn : Option ℕ) :
    ¬ PlayerSession.Resets cfg ⟨{ s.property with
      played := if s.Resets cfg now then 0 else s.property.played }, info, conn⟩ now := by
  intro hn
  by_cases hr : s.Resets cfg now
  · rw [if_pos hr] at hn
    exact hn.1 rfl
  · rw [if_neg hr] at hn
    exact hr hn

theorem login_moved (henable : cfg.enable = true) {now p conn : ℕ} {info : Option AddictedInfo}
    (hinfo : info ≠ some .adultPlayer) (hp : Checked cfg s now p)
    (hreset : ¬ PlayerSession.Resets cfg ⟨{ s.session.property with played := p }, info, some conn⟩ now)
    (hle : p ≤ s.session.property.played)
    (hc : s.online.here = false ∨ s.online.since = now ∧ s.session.property.banned = false ∧
      s.session.property.played < cfg.kickTime) {session : PlayerSession}
    (hsession : session = PlayerSession.alLogin cfg true now true
      ⟨{ s.session.property with played := p }, info, some conn⟩) :
    Moved cfg s now session.conn.isSome session := by
  rw [alLogin_minor henable hinfo hreset] at hsession
  by_cases hk : p < cfg.kickTime
  · rw [if_pos hk] at hsession
    by_cases hb : s.session.property.banned = true
    · rw [if_pos hb] at hsession
      rw [hsession]
      refine .stays checking_ne (hc.resolve_right fun h => ?_).symm (fun hf => Bool.noConfusion hf) hp
      exact Bool.noConfusion (hb.symm.trans h.2.1)
    · rw [if_neg hb] at hsession
      rw [hsession]
      exact .logsIn checking_ne (hc.imp_right And.left) hp
  · rw [if_neg hk] at hsession
    rw [hsession]
    refine .stays hinfo (hc.resolve_right fun h => ?_).symm (fun hf => Bool.noConfusion hf) hp
    exact hk (Nat.lt_of_le_of_lt hle h.2.2)

theorem serve_moved (henable : cfg.enable = true) (pid : ℕ) {now p conn : ℕ} {info : Option AddictedInfo}
    (hinfo : info ≠ some .adultPlayer) (hp : Checked cfg s now p)
    (hkeep : s.session.info = some .checking → info = some .checking)
    (hreset : ¬ PlayerSession.Resets cfg ⟨{ s.session.property with played := p }, info, some conn⟩ now)
    (hle : p ≤ s.session.property.played) {session : PlayerSession} :
    ∀ command d, s.now + d = now → Continues cfg s (d, .message conn command) →
      (session = match command with
        | .login pidMatches => PlayerSession.alLogin cfg true now pidMatches
            ⟨{ s.session.property with played := p }, info, some conn⟩
        | .logout => PlayerSession.alLogout cfg pid now ⟨{ s.session.property with played := p }, info, some conn⟩
        | .ordinary => ⟨{ s.session.property with played := p }, info, some conn⟩) →
      Moved cfg s now (match command with
        | .login _ => session.conn.isSome
        | .logout => false
        | .ordinary => true) session := by
  intro command d hnow hc hsession
  subst hnow
  cases command with
  | ordinary =>
    rw [hsession]
    exact .enters hinfo hp
  | logout =>
    rw [hsession]
    refine alLogout_moved henable pid hinfo (fun hn => nomatch hn) hp ?_
    apply hc.imp_right
    intro ⟨_, hends⟩
    exact hends.imp_left fun h => ⟨hkeep h.1, h.2⟩
  | login pidMatches =>
    cases pidMatches with
    | false =>
      rw [hsession]
      exact .enters hinfo hp
    | true => exact login_moved henable hinfo hp hreset hle (hc.imp_right fun h => h.2 rfl) hsession

theorem resets_of_continues {d conn : ℕ} {command : SessionCommand} (hc : Continues cfg s (d, .message conn command)) :
    s.online.here = false ∨ (s.session.Resets cfg (s.now + d) → s.online.total = 0) := by
  cases command with
  | ordinary => exact hc
  | logout => exact hc.imp_right And.left
  | login pidMatches => exact hc.imp_right And.left

theorem message_moved (henable : cfg.enable = true) (pid : ℕ) (h : Accounted cfg s) {d conn : ℕ} {command : SessionCommand}
    (hc : Continues cfg s (d, .message conn command)) {session : PlayerSession}
    (hsession : session = PlayerSession.processMessage cfg pid true (s.now + d) conn command s.session) :
    Moved cfg s (s.now + d) (isHere cfg (s.now + d) s.session session s.online.here (.message conn command)) session := by
  have hp := checked_of_message (resets_of_continues hc)
  have hle : (if s.session.Resets cfg (s.now + d) then 0 else s.session.property.played) ≤
      s.session.property.played := by
    split
    · exact Nat.zero_le _
    · exact le_refl _
  have hcan := canLogin_minor henable h.minor (s.now + d)
  unfold PlayerSession.processMessage at hsession
  rw [hcan] at hsession
  by_cases hk : (if s.session.Resets cfg (s.now + d) then 0 else s.session.property.played) < cfg.kickTime
  · rw [decide_eq_true hk] at hsession hcan
    simp only at hsession
    have hlogin := addictedLogin_minor henable (s := s.session.updatePlayed
      (if s.session.Resets cfg (s.now + d) then 0 else s.session.property.played)) h.minor
    rw [hlogin] at hsession
    have hserved := serve_moved henable pid checking_ne hp (fun _ => rfl) (not_resets_checked _ _) hle command d rfl hc hsession
    cases command with
    | ordinary => simpa only [isHere, hcan, Bool.or_true] using hserved
    | logout => exact hserved
    | login pidMatches => exact hserved
  · rw [decide_eq_false hk] at hsession hcan
    simp only at hsession
    by_cases ho : command = .ordinary
    · rw [if_pos ho] at hsession
      rw [hsession, ho]
      refine .stays h.minor ?_ ?_ hp
      · simp only [isHere, hcan, Bool.or_false]
      · simpa only [isHere, hcan, Bool.or_false] using h.found
    · rw [if_neg ho] at hsession
      have hserved := serve_moved henable pid h.minor hp id (not_resets_checked _ _) hle command d rfl hc hsession
      cases command with
      | ordinary => exact absurd rfl ho
      | logout => exact hserved
      | login pidMatches => exact hserved

theorem kick_moved (henable : cfg.enable = true) (pid : ℕ) (h : Accounted cfg s) {now : ℕ}
    (hends : s.online.here = false ∨ (s.session.info = some .checking ∧
      s.session.property.logout < s.session.property.login ∨ s.online.since = now)) :
    Moved cfg s now false (PlayerSession.kickPlayer cfg pid now s.session) := by
  refine alLogout_moved henable pid h.minor (fun hn => ?_) (.inl rfl) hends
  cases hhere : s.online.here with
  | false => rfl
  | true => exact absurd hn (h.found hhere)

theorem check_moved (henable : cfg.enable = true) (pid : ℕ) (h : Accounted cfg s) {d : ℕ} (hc : Continues cfg s (d, .check)) :
    Moved cfg s (s.now + d) (isHere cfg (s.now + d) s.session (PlayerSession.checkPlayer cfg pid (s.now + d) s.session)
      s.online.here .check) (PlayerSession.checkPlayer cfg pid (s.now + d) s.session) := by
  have hoff (hconn : s.session.conn = none) : s.online.here = false := by
    cases hhere : s.online.here with
    | false => rfl
    | true => exact absurd hconn (h.found hhere)
  by_cases hi : s.session.info = some .checking
  · by_cases hconn : s.session.conn = none
    · have hcheck : PlayerSession.checkPlayer cfg pid (s.now + d) s.session = { s.session with info := none } := by
        simp only [PlayerSession.checkPlayer, hi, hconn, if_true]
      have hhere : isHere cfg (s.now + d) s.session { s.session with info := none } s.online.here .check = false := by
        simp only [isHere, hoff hconn, Bool.false_and]
      rw [hcheck, hhere]
      exact .stays unchecked_ne (hoff hconn).symm (fun hf => Bool.noConfusion hf) (.inl rfl)
    · by_cases hk : s.session.Kicks cfg (s.now + d)
      · have hcheck : PlayerSession.checkPlayer cfg pid (s.now + d) s.session =
            PlayerSession.kickPlayer cfg pid (s.now + d) s.session := by
          simp only [PlayerSession.checkPlayer, hi, if_neg hconn, if_pos hk]
        have hhere (session : PlayerSession) : isHere cfg (s.now + d) s.session session s.online.here .check = false := by
          simp only [isHere, hi, hk, decide_true, Bool.and_true, Bool.not_true, Bool.and_false]
        rw [hcheck, hhere]
        exact kick_moved henable pid h (hc.imp_right fun hends => hends hk)
      · have hcheck : PlayerSession.checkPlayer cfg pid (s.now + d) s.session = s.session := by
          simp only [PlayerSession.checkPlayer, hi, if_neg hconn, if_neg hk]
        have hhere : isHere cfg (s.now + d) s.session s.session s.online.here .check = s.online.here := by
          simp only [isHere, hk, decide_false, Bool.and_false, Bool.not_false, Bool.and_true]
        rw [hcheck, hhere]
        exact .stays h.minor rfl h.found (.inl rfl)
  · have hcheck : PlayerSession.checkPlayer cfg pid (s.now + d) s.session = s.session := by
      unfold PlayerSession.checkPlayer
      split
      · exact absurd ‹_› hi
      · rfl
    have hhere : isHere cfg (s.now + d) s.session s.session s.online.here .check = s.online.here := by
      simp only [isHere, hi, decide_false, Bool.false_and, Bool.not_false, Bool.and_true]
    rw [hcheck, hhere]
    exact .stays h.minor rfl h.found (.inl rfl)

theorem step_accounted (henable : cfg.enable = true) (pid : ℕ) {s' : AddictedState} (i : ℕ × AddictedAct)
    (h : Accounted cfg s) (hc : Continues cfg s i) (hs : step cfg pid true s i = .ok s') : Accounted cfg s' := by
  have hmoved : Moved cfg s (s.now + i.1) (isHere cfg (s.now + i.1) s.session (act cfg pid true (s.now + i.1) i.2 s.session)
      s.online.here i.2) (act cfg pid true (s.now + i.1) i.2 s.session) := by
    obtain ⟨d, a⟩ := i
    cases a with
    | message conn command => exact message_moved henable pid h hc rfl
    | kick => exact kick_moved henable pid h hc
    | check => exact check_moved henable pid h hc
  rw [← Except.ok.inj hs]
  exact hmoved.accounted h (Nat.le_add_right _ _)

end Step

/-! ## What is counted -/

theorem Accounted.counted {cfg : AddictedConfig} {s : AddictedState} (h : Accounted cfg s) : Counted cfg s := by
  intro now hnow
  unfold onlineTime countedTime
  cases hc : s.online.here with
  | true =>
    obtain ⟨hlogin, hsince, htotal⟩ := h.online hc
    simp only [if_true]
    omega
  | false =>
    simp only [Bool.false_eq_true, if_false]
    split
    · omega
    · have := h.offline hc
      omega

theorem start_accounted {cfg : AddictedConfig} {now : ℕ} {property : PlayTime} (hlogin : property.login ≤ now)
    (hlogout : property.logout ≤ now) : Accounted cfg (start now property) :=
  ⟨hlogin, hlogout, unchecked_ne, Nat.zero_le _, fun hf => Bool.noConfusion hf, fun hf => Bool.noConfusion hf,
    fun _ => .inl (Nat.zero_le _)⟩

/-- In every run of a minor in which every step continues the session of a player who is online, what is counted is at
least the time he has been online since he last rested. -/
theorem played_accounted (cfg : AddictedConfig) (henable : cfg.enable = true) (pid now : ℕ) (property : PlayTime)
    (hlogin : property.login ≤ now) (hlogout : property.logout ≤ now) (acts : List (ℕ × AddictedAct))
    (hc : Along (step cfg pid true) (Continues cfg) (start now property) acts) :
    Throughout (step cfg pid true) (Counted cfg) (start now property) acts := by
  have hstep : ∀ s i s', Accounted cfg s → Continues cfg s i → step cfg pid true s i = .ok s' → Accounted cfg s' :=
    fun s i s' h hcont hs => step_accounted henable pid i h hcont hs
  exact run_throughout (fun s h => h.counted) hstep acts _ (start_accounted hlogin hlogout) hc

def defaultConfig : AddictedConfig := ⟨true, 10800, 18000⟩

def created : PlayTime := ⟨100, 0, 0, false⟩

/-- The player 100001 of the server 1. -/
def realPid : ℕ := 2 ^ 32 + 100001

theorem played_accounted_two_sessions :
    Throughout (step defaultConfig realPid true) (Counted defaultConfig) (start 100 created)
      [(10, .message 1 (.login true)), (3600, .message 1 .ordinary), (0, .message 1 .logout),
        (600, .message 2 (.login true)), (7300, .check)] := by
  apply played_accounted defaultConfig rfl realPid 100 created (by decide) (by decide)
  decide +kernel

theorem lost_of_run {cfg : AddictedConfig} {pid : ℕ} {s s' : AddictedState} {acts : List (ℕ × AddictedAct)}
    (hrun : run (step cfg pid true) s acts = .ok s') (hlost : s'.countedTime s'.now < s'.onlineTime cfg s'.now) :
    ¬ Throughout (step cfg pid true) (Counted cfg) s acts := by
  intro h
  have := h.last hrun s'.now (le_refl _)
  omega

/-- A second login 5000 seconds after the first; a message 700 seconds after a login, five hours after the logout before it; a
session that starts in the second of the last logout; and one that starts in that of a kick after it, which stamps again. -/
theorem played_lost :
    ¬ Throughout (step defaultConfig realPid true) (Counted defaultConfig) (start 100 created)
      [(10, .message 1 (.login true)), (5000, .message 1 (.login true))] ∧
    ¬ Throughout (step defaultConfig realPid true) (Counted defaultConfig) (start 100 created)
      [(10, .message 1 (.login true)), (3600, .message 1 .logout), (17400, .message 1 (.login true)),
        (700, .message 1 .ordinary)] ∧
    ¬ Throughout (step defaultConfig realPid true) (Counted defaultConfig) (start 100 created)
      [(10, .message 1 (.login true)), (3600, .message 1 .logout), (0, .message 1 (.login true)),
        (3600, .message 1 .logout)] ∧
    ¬ Throughout (step defaultConfig realPid true) (Counted defaultConfig) (start 100 created)
      [(10, .message 1 (.login true)), (3600, .message 1 .logout), (600, .kick), (0, .message 1 (.login true)),
        (3600, .message 1 .logout)] :=
  ⟨lost_of_run rfl (by decide), lost_of_run rfl (by decide), lost_of_run rfl (by decide), lost_of_run rfl (by decide)⟩

end AddictedState
end CServer.World
