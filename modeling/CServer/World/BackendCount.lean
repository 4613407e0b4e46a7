import CServer.Lib.Exec
import CServer.Lib.Index
import CServer.Lib.Memory

/-! # `world/notify.c`: events counted for the backend

What happens to a player is counted by the type of the event, and the counts are sent to the backend after some seconds
without a new event, or when the array of players is full. `_nb_clean` sends what is due and moves the players that
are left together to the front; `nb_list.map` finds the slot of a player. The id of a player has 64 bits, of which the message
gets the lower half.
-/
namespace CServer.World
open CServer.Lib Function List

/-! ## The code -/

def nbCount : ℕ := 100
def nbDelay : ℤ := 3
def nbPlayerMin : ℕ := 4
def nbPlayerMax : ℕ := 24

/-- `struct nb_player`; the values are `unsigned int`s. -/
structure NbPlayer where
  pid : ℕ
  time : ℤ
  value : ℕ → ℕ

def NbPlayer.zero : NbPlayer := ⟨0, 0, fun _ => 0⟩

structure NbEvent where
  pid : ℕ
  event : ℕ
  value : ℕ

/-- `nb_list`, a slot being its index, and what has been sent to the backend. -/
structure NbList where
  map : ℕ → Option ℕ
  used : ℕ
  player : ℕ → NbPlayer
  sent : List NbEvent

namespace NbList

def get (nb : NbList) (pid : ℕ) : Option ℕ × NbList :=
  match nb.map pid with
  | some i => (some i, nb)
  | none =>
    if nb.used < nbCount then
      (some nb.used, { nb with
        used := nb.used + 1
        player := update nb.player nb.used { nb.player nb.used with pid := pid }
        map := update nb.map pid (some nb.used) })
    else (none, nb)

/-- The messages for a player; `backend_get` finds the backend only if it is configured. `pbc_wmessage_integer` takes the two
halves of an integer, and the upper one is 0 for each field. -/
def events (configured : Bool) (player : NbPlayer) : List NbEvent :=
  if configured then
    (List.range' nbPlayerMin (nbPlayerMax + 1 - nbPlayerMin)).filterMap fun i =>
      if player.value i > 0 then some ⟨player.pid % 2 ^ 32, i, player.value i⟩ else none
  else []

def flush (configured : Bool) (nb : NbList) (i : ℕ) : NbList where
  used := nb.used
  map := update nb.map (nb.player i).pid none
  player := update nb.player i .zero
  sent := nb.sent ++ events configured (nb.player i)

def keep (nb : NbList) (i : ℕ) : NbList :=
  if nb.used = i then { nb with used := nb.used + 1 }
  else
    { nb with
      used := nb.used + 1
      map := update nb.map (nb.player i).pid (some nb.used)
      player := update (update nb.player nb.used (nb.player i)) i .zero }

def cleanOne (configured force : Bool) (deadLine : ℤ) (nb : NbList) (i : ℕ) : Except Fault NbList :=
  if force ∨ (nb.player i).time ≤ deadLine then .ok (nb.flush configured i)
  else do
    assert (decide (nb.used ≤ i))
    return nb.keep i

def clean (configured force : Bool) (now : ℤ) (nb : NbList) : Except Fault NbList :=
  (List.range nb.used).foldlM (cleanOne configured force (now - nbDelay)) { nb with used := 0 }

def count (nb : NbList) (i event value : ℕ) (now : ℤ) : NbList :=
  { nb with player := update nb.player i { nb.player i with
      value := update (nb.player i).value event (((nb.player i).value event + value) % 2 ^ 32)
      time := now } }

/-- `notification_backend`; a player for whom there is no slot is a null pointer. -/
def record (configured : Bool) (now : ℤ) (nb : NbList) (e : NbEvent) : Except Fault NbList :=
  if e.event < nbPlayerMin ∨ e.event > nbPlayerMax then .ok nb
  else
    match nb.get e.pid with
    | (some i, nb) => .ok (nb.count i e.event e.value now)
    | (none, nb) => do
      let nb ← nb.clean configured true now
      match nb.get e.pid with
      | (some i, nb) => .ok (nb.count i e.event e.value now)
      | (none, _) => .error .outOfBounds

def empty : NbList := ⟨fun _ => none, 0, fun _ => .zero, []⟩

end NbList

inductive NbCall
  | record (now : ℤ) (e : NbEvent)
  | clean (now : ℤ)

def NbCall.step (configured : Bool) (nb : NbList) : NbCall → Except Fault NbList
  | record now e => nb.record configured now e
  | clean now => nb.clean configured false now

/-! ## What should be kept -/

def total (pid event : ℕ) (es : List NbEvent) : ℕ :=
  ((es.filter fun e => e.pid = pid ∧ e.event = event).map NbEvent.value).sum

def NbCall.recorded : NbCall → Option NbEvent
  | record _ e => some e
  | clean _ => none

def NbList.pending (nb : NbList) (pid event : ℕ) : ℕ := ((nb.map pid).map fun i => (nb.player i).value event).getD 0

/-- The id of each player for whom something is counted has 32 bits. -/
def Fitting (es : List NbEvent) : Prop :=
  ∀ e ∈ es, nbPlayerMin ≤ e.event → e.event ≤ nbPlayerMax → e.pid < 2 ^ 32

/-- What has been recorded has been sent or is pending. -/
def Balanced (es : List NbEvent) (nb : NbList) : Prop :=
  ∀ pid event, nbPlayerMin ≤ event → event ≤ nbPlayerMax →
    total pid event es ≡ total pid event nb.sent + nb.pending pid event [MOD 2 ^ 32]

/-- The slots `0`, …, `used - 1` are those of the players with something pending, and the map finds them. -/
structure NbSound (nb : NbList) : Prop where
  used : nb.used ≤ nbCount
  map : Indexes nb.map (fun i => (nb.player i).pid) (· < nb.used)
  clear : ∀ i, nb.used ≤ i → nb.player i = .zero

/-! ## Counting -/

variable {pid event : ℕ} {es : List NbEvent}

theorem total_append (es es' : List NbEvent) : total pid event (es ++ es') = total pid event es + total pid event es' := by
  rw [total, filter_append, map_append, sum_append]
  rfl

theorem total_singleton (e : NbEvent) : total pid event [e] = if e.pid = pid ∧ e.event = event then e.value else 0 := by
  rw [total, filter_singleton]
  by_cases h : e.pid = pid ∧ e.event = event
  · simp [h]
  · simp [h]

theorem total_messages (player : NbPlayer) {is : List ℕ} (hnodup : is.Nodup) :
    total pid event (is.filterMap fun i => if player.value i > 0 then some ⟨player.pid, i, player.value i⟩ else none) =
      if player.pid = pid ∧ event ∈ is then player.value event else 0 := by
  induction is with
  | nil => simp [total]
  | cons i is ih =>
    obtain ⟨hi, hnodup⟩ := nodup_cons.mp hnodup
    have hhead : total pid event ((if player.value i > 0 then some ⟨player.pid, i, player.value i⟩ else none : Option NbEvent).toList) =
        if player.pid = pid ∧ i = event then player.value event else 0 := by
      split
      · rw [Option.toList_some, total_singleton]
        by_cases h : player.pid = pid ∧ i = event
        · rw [if_pos h, if_pos h, h.2]
        · rw [if_neg h, if_neg h]
      case isFalse hzero =>
        split
        case isTrue h =>
          rw [← h.2]
          exact (Nat.eq_zero_of_not_pos hzero).symm
        case isFalse => rfl
    have hcons : ∀ f : ℕ → Option NbEvent, (i :: is).filterMap f = (f i).toList ++ is.filterMap f := by
      intro f
      rw [filterMap_cons]
      cases f i with
      | none => rfl
      | some e => rfl
    rw [hcons, total_append, hhead, ih hnodup]
    by_cases hp : player.pid = pid
    · by_cases he : i = event
      · subst he
        rw [if_pos ⟨hp, rfl⟩, if_neg fun h => hi h.2, if_pos ⟨hp, mem_cons_self⟩, Nat.add_zero]
      · have hmem : event ∈ i :: is ↔ event ∈ is := by
          rw [mem_cons]
          exact or_iff_right fun h => he h.symm
        rw [if_neg fun h => he h.2, Nat.zero_add]
        simp only [hmem]
    · rw [if_neg fun h => hp h.1, if_neg fun h => hp h.1, if_neg fun h => hp h.1]

theorem total_events (player : NbPlayer) (hpid : player.pid < 2 ^ 32) (hmin : nbPlayerMin ≤ event) (hmax : event ≤ nbPlayerMax) :
    total pid event (NbList.events true player) = if player.pid = pid then player.value event else 0 := by
  have hmem : event ∈ List.range' nbPlayerMin (nbPlayerMax + 1 - nbPlayerMin) := by
    rw [mem_range'_1]
    omega
  rw [NbList.events, if_pos rfl, Nat.mod_eq_of_lt hpid, total_messages player nodup_range']
  simp only [hmem, and_true]

/-! ## The pass over the array -/

/-! `fits` stands for the condition on all that is recorded in a run. -/

variable {configured force : Bool} {fits : Prop} {deadLine now : ℤ} {nb nb' : NbList} {i n : ℕ}

def Live (used i n k : ℕ) : Prop := k < used ∨ i ≤ k ∧ k < n

structure Compacting (configured : Bool) (fits : Prop) (es : List NbEvent) (i n : ℕ) (nb : NbList) : Prop where
  le : nb.used ≤ i
  inside : i ≤ n
  map : Indexes nb.map (fun k => (nb.player k).pid) (Live nb.used i n)
  clear : ∀ k, ¬ Live nb.used i n k → nb.player k = .zero
  pids : fits → ∀ k, (nb.player k).pid < 2 ^ 32
  balanced : configured = true → fits → Balanced es nb
  silent : configured = false → nb.sent = []

theorem Compacting.unique (h : Compacting configured fits es i n nb) {k l : ℕ} (hk : Live nb.used i n k) (hl : Live nb.used i n l)
    (hpid : (nb.player k).pid = (nb.player l).pid) : k = l := by
  have hfound := (h.map _ _).mpr ⟨hk, rfl⟩
  rw [(h.map _ _).mpr ⟨hl, hpid.symm⟩] at hfound
  exact (Option.some.inj hfound).symm

theorem pending_of (h : nb.map pid = some i) : nb.pending pid event = (nb.player i).value event := by
  rw [NbList.pending, h]
  rfl

theorem pending_none (h : nb.map pid = none) : nb.pending pid event = 0 := by
  rw [NbList.pending, h]
  rfl

theorem pending_congr (hmap : nb'.map pid = nb.map pid) (hplayer : ∀ k, nb.map pid = some k → nb'.player k = nb.player k) :
    nb'.pending pid event = nb.pending pid event := by
  cases hk : nb.map pid with
  | none => rw [pending_none hk, pending_none (hmap.trans hk)]
  | some k => rw [pending_of hk, pending_of (hmap.trans hk), hplayer k hk]

theorem Compacting.flush (h : Compacting configured fits es i n nb) (hi : i < n) :
    Compacting configured fits es (i + 1) n (nb.flush configured i) := by
  have hle := h.le
  have hlive : Live nb.used i n i := .inr ⟨le_refl i, hi⟩
  have hother : ∀ k, k ≠ i → (Live nb.used i n k ↔ Live nb.used (i + 1) n k) := by
    intro k hk
    unfold Live
    omega
  have hgone : ¬ Live nb.used (i + 1) n i := by
    unfold Live
    omega
  have hplayer : ∀ k, k ≠ i → (nb.flush configured i).player k = nb.player k := fun k hk => update_of_ne hk ..
  refine ⟨hle.trans (Nat.le_succ i), hi, ?_, ?_, ?_, ?_, ?_⟩
  · have herase : Indexes (nb.flush configured i).map (fun k => (nb.player k).pid) (Live nb.used (i + 1) n) :=
      h.map.erase (fun q hq hpid => h.unique hq hlive hpid) hgone hother
    refine herase.congr (fun _ => Iff.rfl) fun k hk => ?_
    rw [hplayer k fun heq => hgone (heq ▸ hk)]
  · intro k hk
    by_cases hki : k = i
    · rw [hki]
      exact update_self ..
    · rw [hplayer k hki]
      exact h.clear k fun hl => hk ((hother k hki).mp hl)
  · intro hfits k
    by_cases hki : k = i
    · have hzero : (nb.flush configured i).player i = .zero := update_self ..
      rw [hki, hzero]
      exact Nat.two_pow_pos 32
    · rw [hplayer k hki]
      exact h.pids hfits k
  · intro hconf hfits pid event hmin hmax
    have hbefore := h.balanced hconf hfits pid event hmin hmax
    have hsent : total pid event (nb.flush configured i).sent =
        total pid event nb.sent + if (nb.player i).pid = pid then (nb.player i).value event else 0 := by
      rw [NbList.flush, total_append, hconf, total_events _ (h.pids hfits i) hmin hmax]
    by_cases hpid : (nb.player i).pid = pid
    · have hfound : nb.map pid = some i := (h.map _ _).mpr ⟨hlive, hpid⟩
      have hnone : (nb.flush configured i).map pid = none := by
        rw [← hpid]
        exact update_self ..
      rw [pending_of hfound] at hbefore
      rw [hsent, if_pos hpid, pending_none hnone]
      exact hbefore
    · have hsame : (nb.flush configured i).map pid = nb.map pid := update_of_ne (Ne.symm hpid) ..
      rw [hsent, if_neg hpid, Nat.add_zero, pending_congr hsame fun k hk => hplayer k fun heq => hpid ?_]
      · exact hbefore
      · rw [← heq]
        exact (h.map.mem hk).2
  · intro hconf
    rw [NbList.flush, h.silent hconf, hconf]
    rfl

theorem Compacting.keep (h : Compacting configured fits es i n nb) (hi : i < n) :
    Compacting configured fits es (i + 1) n (nb.keep i) := by
  have hle := h.le
  have hlive : Live nb.used i n i := .inr ⟨le_refl i, hi⟩
  unfold NbList.keep
  by_cases hused : nb.used = i
  · rw [if_pos hused]
    have hsame : ∀ k, Live nb.used i n k ↔ Live (nb.used + 1) (i + 1) n k := by
      intro k
      unfold Live
      omega
    exact ⟨by simp only; omega, hi, h.map.congr hsame fun _ _ => rfl, fun k hk => h.clear k fun hl => hk ((hsame k).mp hl),
      h.pids, h.balanced, h.silent⟩
  rw [if_neg hused]
  have hlt : nb.used < i := by omega
  have hfree : ¬ Live nb.used i n nb.used := by
    unfold Live
    omega
  have hfound : nb.map (nb.player i).pid = some i := (h.map _ _).mpr ⟨hlive, rfl⟩
  set player := update (update nb.player nb.used (nb.player i)) i .zero with hdef
  have hgone : player i = .zero := update_self ..
  have hnew : player nb.used = nb.player i := by
    rw [hdef, update_of_ne hused, update_self]
  have hplayer : ∀ k, k ≠ i → k ≠ nb.used → player k = nb.player k := by
    intro k hk hk'
    rw [hdef, update_of_ne hk, update_of_ne hk']
  have hother : ∀ k, k ≠ i → k ≠ nb.used → (Live nb.used i n k ↔ Live (nb.used + 1) (i + 1) n k) := by
    intro k hk hk'
    unfold Live
    omega
  have hself : ¬ Live (nb.used + 1) (i + 1) n i := by
    unfold Live
    omega
  refine ⟨by simp only; omega, hi, ?_, ?_, ?_, ?_, h.silent⟩
  · refine h.map.move (fun k hk hpid => h.unique hk hlive hpid) hfree hself (.inl (Nat.lt_succ_self _)) ?_ fun k hki hku => ?_
    · simp only [hnew]
    · simp only [hplayer k hki hku]
      exact ⟨hother k hki hku, trivial⟩
  · intro k hk
    simp only at hk ⊢
    by_cases hki : k = i
    · rw [hki, hgone]
    · have hku : k ≠ nb.used := fun heq => hk (.inl (by omega))
      rw [hplayer k hki hku]
      exact h.clear k fun hl => hk ((hother k hki hku).mp hl)
  · intro hfits k
    simp only
    by_cases hki : k = i
    · rw [hki, hgone]
      exact Nat.two_pow_pos 32
    · by_cases hku : k = nb.used
      · rw [hku, hnew]
        exact h.pids hfits i
      · rw [hplayer k hki hku]
        exact h.pids hfits k
  · intro hconf hfits pid event hmin hmax
    have hbefore := h.balanced hconf hfits pid event hmin hmax
    by_cases hpid : pid = (nb.player i).pid
    · rw [hpid] at hbefore ⊢
      rw [pending_of hfound] at hbefore
      rw [@pending_of _ _ _ nb.used (update_self ..)]
      simp only [hnew]
      exact hbefore
    · rw [pending_congr (update_of_ne hpid ..) fun k hk => ?_]
      · exact hbefore
      · obtain ⟨hl, hkpid⟩ := h.map.mem hk
        exact hplayer k (fun heq => hpid (heq ▸ hkpid.symm)) fun heq => hfree (heq ▸ hl)

structure NbKept (configured : Bool) (fits : Prop) (es : List NbEvent) (nb : NbList) : Prop where
  sound : NbSound nb
  pids : fits → ∀ k, (nb.player k).pid < 2 ^ 32
  balanced : configured = true → fits → Balanced es nb
  silent : configured = false → nb.sent = []

theorem Compacting.loop (h : Compacting configured fits es 0 n nb) (hused : nb.used = 0) (hi : i ≤ n) :
    ∃ nb', (List.range i).foldlM (NbList.cleanOne configured force deadLine) nb = .ok nb' ∧
      Compacting configured fits es i n nb' ∧ (force = true → nb'.used = 0) := by
  induction i with
  | zero => exact ⟨nb, rfl, h, fun _ => hused⟩
  | succ i ih =>
    obtain ⟨mid, hmid, hcompacting, hforce⟩ := ih (by omega)
    rw [range_succ, foldlM_append, hmid, ok_bind, foldlM_cons, NbList.cleanOne]
    split
    · exact ⟨_, rfl, hcompacting.flush hi, hforce⟩
    case isFalse hkeep =>
      rw [assert_of (decide_eq_true hcompacting.le)]
      exact ⟨_, rfl, hcompacting.keep hi, fun hf => absurd (.inl hf) hkeep⟩

theorem nbClean_ok (h : NbKept configured fits es nb) (force : Bool) (now : ℤ) :
    ∃ nb', nb.clean configured force now = .ok nb' ∧ NbKept configured fits es nb' ∧ (force = true → nb'.used = 0) := by
  have hlive : ∀ k, k < nb.used ↔ Live 0 0 nb.used k := by
    intro k
    unfold Live
    omega
  have hstart : Compacting configured fits es 0 nb.used { nb with used := 0 } :=
    ⟨le_refl 0, Nat.zero_le _, h.sound.map.congr hlive fun _ _ => rfl,
      fun k hk => h.sound.clear k (Nat.le_of_not_lt fun hlt => hk ((hlive k).mp hlt)), h.pids, h.balanced,
      h.silent⟩
  obtain ⟨nb', hrun, hend, hforce⟩ := hstart.loop rfl (le_refl nb.used)
  have hlive' : ∀ k, Live nb'.used nb.used nb.used k ↔ k < nb'.used := by
    intro k
    unfold Live
    omega
  refine ⟨nb', hrun, ⟨⟨hend.le.trans h.sound.used, hend.map.congr hlive' fun _ _ => rfl, fun k hk => ?_⟩, hend.pids,
    hend.balanced, hend.silent⟩, hforce⟩
  exact hend.clear k fun hl => absurd ((hlive' k).mp hl) (Nat.not_lt.mpr hk)

/-! ## One event -/

theorem NbKept.get (h : NbKept configured fits es nb) (hfit : fits → pid < 2 ^ 32) :
    (∃ i nb', nb.get pid = (some i, nb') ∧ NbKept configured fits es nb' ∧ nb'.map pid = some i) ∨
      nb.get pid = (none, nb) ∧ nb.used = nbCount := by
  unfold NbList.get
  cases hmap : nb.map pid with
  | some i => exact .inl ⟨i, nb, rfl, h, hmap⟩
  | none =>
    by_cases hroom : nb.used < nbCount
    · rw [if_pos hroom]
      refine .inl ⟨nb.used, _, rfl, ⟨⟨hroom, ?_, ?_⟩, ?_, ?_, h.silent⟩, update_self ..⟩
      · have hplayer : ∀ k, k < nb.used →
            update nb.player nb.used { nb.player nb.used with pid := pid } k = nb.player k :=
          fun k hk => update_of_ne (Nat.ne_of_lt hk) ..
        intro q k
        simp only
        by_cases hq : q = pid
        · rw [hq, update_self]
          constructor
          · intro hk
            rw [← Option.some.inj hk, update_self]
            exact ⟨Nat.lt_succ_self _, rfl⟩
          · intro ⟨hk, hpid⟩
            by_cases hku : k = nb.used
            · rw [hku]
            · rw [hplayer k (by omega)] at hpid
              exact absurd hpid (h.sound.map.absent hmap (show k < nb.used by omega))
        · rw [update_of_ne hq, h.sound.map q k]
          constructor
          · intro ⟨hk, hpid⟩
            exact ⟨Nat.lt_succ_of_lt hk, by rwa [hplayer k hk]⟩
          · intro ⟨hk, hpid⟩
            by_cases hku : k = nb.used
            · rw [hku, update_self] at hpid
              exact absurd hpid.symm hq
            · rw [hplayer k (by omega)] at hpid
              exact ⟨by omega, hpid⟩
      · intro k hk
        simp only at hk ⊢
        rw [update_of_ne (by omega)]
        exact h.sound.clear k (by omega)
      · intro hfits k
        simp only
        by_cases hku : k = nb.used
        · rw [hku, update_self]
          exact hfit hfits
        · rw [update_of_ne hku]
          exact h.pids hfits k
      · intro hconf hfits q event hmin hmax
        have hbefore := h.balanced hconf hfits q event hmin hmax
        by_cases hq : q = pid
        · -- the slot is a fresh one, in which nothing has been counted
          rw [hq] at hbefore ⊢
          rw [@pending_of _ _ _ nb.used (update_self ..)]
          simp only [update_self, h.sound.clear nb.used (le_refl _)]
          rwa [pending_none hmap] at hbefore
        · rw [pending_congr (update_of_ne hq ..) fun k hk => ?_]
          · exact hbefore
          · exact update_of_ne (Nat.ne_of_lt (h.sound.map.mem hk).1) ..
    · rw [if_neg hroom]
      exact .inr ⟨rfl, le_antisymm h.sound.used (Nat.le_of_not_lt hroom)⟩

theorem NbKept.count {e : NbEvent} (h : NbKept configured fits es nb) (hi : nb.map e.pid = some i) (now : ℤ) :
    NbKept configured fits (es ++ [e]) (nb.count i e.event e.value now) := by
  obtain ⟨hlt, hpid⟩ := h.sound.map.mem hi
  have hother : ∀ k, k ≠ i → (nb.count i e.event e.value now).player k = nb.player k := fun k hk => update_of_ne hk ..
  have hself : (nb.count i e.event e.value now).player i = { nb.player i with
      value := update (nb.player i).value e.event (((nb.player i).value e.event + e.value) % 2 ^ 32)
      time := now } := update_self ..
  have hpids : ∀ k, ((nb.count i e.event e.value now).player k).pid = (nb.player k).pid := by
    intro k
    by_cases hk : k = i
    · rw [hk, hself]
    · rw [hother k hk]
  refine ⟨⟨h.sound.used, h.sound.map.congr (fun _ => Iff.rfl) fun k _ => hpids k, fun k hk => ?_⟩,
    fun hfits k => (hpids k).symm ▸ h.pids hfits k, ?_, h.silent⟩
  · have hk' : nb.used ≤ k := hk
    rw [hother k (by omega)]
    exact h.sound.clear k hk'
  · intro hconf hfits q event hmin hmax
    have hbefore := h.balanced hconf hfits q event hmin hmax
    rw [total_append, total_singleton]
    by_cases hq : e.pid = q
    · have hfound : nb.map q = some i := hq ▸ hi
      have hfound' : (nb.count i e.event e.value now).map q = some i := hfound
      rw [pending_of hfound] at hbefore
      rw [pending_of hfound', hself]
      simp only
      by_cases he : e.event = event
      · rw [if_pos ⟨hq, he⟩, he, update_self]
        have hsum := hbefore.add_right e.value
        rw [add_assoc] at hsum
        exact hsum.trans (Nat.ModEq.add_left _ (Nat.mod_modEq _ _).symm)
      · rw [if_neg fun hboth => he hboth.2, update_of_ne (Ne.symm he)]
        exact hbefore
    · have hmap : (nb.count i e.event e.value now).map q = nb.map q := rfl
      rw [if_neg fun hboth => hq hboth.1, Nat.add_zero, pending_congr hmap fun k hk => hother k fun heq => hq ?_]
      · exact hbefore
      · rw [← hpid, ← heq]
        exact (h.sound.map.mem hk).2

theorem NbKept.ignore {e : NbEvent} (h : NbKept configured fits es nb) (hout : e.event < nbPlayerMin ∨ e.event > nbPlayerMax) :
    NbKept configured fits (es ++ [e]) nb := by
  refine ⟨h.sound, h.pids, fun hconf hfits pid event hmin hmax => ?_, h.silent⟩
  rw [total_append, total_singleton, if_neg, Nat.add_zero]
  · exact h.balanced hconf hfits pid event hmin hmax
  · intro h
    omega

theorem record_ok (h : NbKept configured fits es nb) (now : ℤ) (e : NbEvent) (hfit : fits → Fitting [e]) :
    ∃ nb', nb.record configured now e = .ok nb' ∧ NbKept configured fits (es ++ [e]) nb' := by
  unfold NbList.record
  by_cases hout : e.event < nbPlayerMin ∨ e.event > nbPlayerMax
  · rw [if_pos hout]
    exact ⟨nb, rfl, h.ignore hout⟩
  rw [if_neg hout]
  have hpid : fits → e.pid < 2 ^ 32 := fun hfits => hfit hfits e mem_cons_self (by omega) (by omega)
  obtain ⟨i, nb', hget, hkept, hi⟩ | ⟨hget, -⟩ := h.get hpid
  · rw [hget]
    exact ⟨_, rfl, hkept.count hi now⟩
  · rw [hget]
    obtain ⟨mid, hclean, hmid, hused⟩ := nbClean_ok h true now
    simp only [hclean, ok_bind]
    obtain ⟨i, nb', hget', hkept, hi⟩ | ⟨-, hfull⟩ := hmid.get hpid
    · rw [hget']
      exact ⟨_, rfl, hkept.count hi now⟩
    · rw [hused rfl] at hfull
      exact absurd hfull (by decide)

/-! ## Runs -/

theorem call_ok (h : NbKept configured fits es nb) (call : NbCall) (hfit : fits → Fitting call.recorded.toList) :
    ∃ nb', call.step configured nb = .ok nb' ∧ NbKept configured fits (es ++ call.recorded.toList) nb' := by
  cases call with
  | record now e => exact record_ok h now e hfit
  | clean now =>
    obtain ⟨nb', hclean, hkept, -⟩ := nbClean_ok h false now
    exact ⟨nb', hclean, by rwa [NbCall.recorded, Option.toList_none, append_nil]⟩

theorem nbKept_empty : NbKept configured fits [] .empty :=
  ⟨⟨Nat.zero_le _, indexes_none fun _ => Nat.not_lt_zero _, fun _ _ => rfl⟩, fun _ _ => Nat.two_pow_pos 32,
    fun _ _ _ _ _ _ => rfl, fun _ => rfl⟩

theorem nbKept_run (configured : Bool) (calls : List NbCall) (hfit : fits → Fitting (calls.filterMap NbCall.recorded)) :
    ∃ nb, run (fun nb call => NbCall.step configured nb call) .empty calls = .ok nb ∧
      NbKept configured fits (calls.filterMap NbCall.recorded) nb := by
  induction calls using List.reverseRecOn with
  | nil => exact ⟨.empty, rfl, nbKept_empty⟩
  | append_singleton calls call ih =>
    have hone : [call].filterMap NbCall.recorded = call.recorded.toList := by
      rw [filterMap_cons]
      cases call.recorded with
      | none => rfl
      | some e => rfl
    rw [filterMap_append, hone] at hfit ⊢
    obtain ⟨nb, hrun, h⟩ := ih fun hfits e he => hfit hfits e (mem_append_left _ he)
    obtain ⟨nb', hstep, h'⟩ := call_ok h call fun hfits e he => hfit hfits e (mem_append_right _ he)
    refine ⟨nb', ?_, h'⟩
    rw [run_append calls [call] hrun, run, hstep]
    rfl

end CServer.World
