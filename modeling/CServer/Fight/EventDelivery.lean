import CServer.Fight.EventManager

/-! # What the event manager of a battle delivers

`Ledger` is what the manager is for, in terms of what was asked of it: the listeners added and not
removed, the events that wait, and the deliveries in progress. It reads the log and stops at the first
entry that should not be there. The code keeps to it in the runs in which no list changes behind the
back of a loop over it.
-/
namespace CServer.Fight
open CServer.Lib Function List Nat

/-! ## The ledger -/

structure Delivery where
  event : EventName
  due : List Listener
  called : List Listener := []

structure Ledger where
  registered : EventName → List Listener := fun _ => []
  queued : List Message := []
  handed : Option Message := none
  deliveries : List Delivery := []

namespace Ledger
variable (L : Ledger)

def Listens (event : EventName) (cb : Listener) : Prop := cb ∈ L.registered event ∨ cb ∈ L.registered .all

instance (event : EventName) (cb : Listener) : Decidable (L.Listens event cb) := instDecidableOr

/-- Events leave in the order in which they came, and none is left when a `Tick` ends; who is called is
registered and has not been called by this delivery; and when a delivery ends, who was registered when it
started has been called, or removed. -/
def readNote : EventNote → Option Ledger
  | .added key cb => some { L with registered := update L.registered key (L.registered key ++ [cb]) }
  | .removed key ptr =>
    some { L with registered := update L.registered key ((L.registered key).eraseP fun cb => cb.ptr = ptr) }
  | .queued m => some { L with queued := L.queued ++ [m] }
  | .taken m =>
    match L.queued with
    | [] => none
    | m' :: rest => if m' = m then some { L with queued := rest, handed := some m } else none
  | .ticked => if L.queued = [] then some L else none
  | .began m =>
    some { L with deliveries := ⟨m.event, L.registered m.event ++ L.registered .all, []⟩ :: L.deliveries }
  | .called cb =>
    match L.deliveries with
    | [] => none
    | d :: rest =>
      if L.Listens d.event cb ∧ cb ∉ d.called then
        some { L with deliveries := { d with called := d.called ++ [cb] } :: rest }
      else none
  | .finished =>
    match L.deliveries with
    | [] => none
    | d :: rest =>
      if ∀ cb ∈ d.due, L.Listens d.event cb → cb ∈ d.called then some { L with deliveries := rest } else none

/-- An event that has left the queue is delivered at once. -/
def read (e : EventNote) : Option Ledger :=
  match L.handed with
  | none => L.readNote e
  | some m => if e = .began m then { L with handed := none }.readNote e else none

def readAll (log : List EventNote) : Option Ledger := log.foldlM read {}

end Ledger

variable (list : List (Option Listener))

def live : List Listener := list.filterMap id

namespace EventManager
variable (s : EventManager)

def listening (key : EventName) : List Listener :=
  match s.watcher key with
  | none => []
  | some p => live (s.lists p)

def calls : List CallList :=
  s.frames.filterMap fun
    | .callList c => some c
    | .tick _ _ => none

def ticks : List (ℕ × ℕ) :=
  s.frames.filterMap fun
    | .callList _ => none
    | .tick list i => some (list, i)

/-- How many events of the queue the `Tick` in progress has taken. -/
def reached : ℕ :=
  match s.ticks with
  | [] => 0
  | (_, i) :: _ => i

def pending : List Message := (s.queues s.list).drop s.reached

/-- The log is as it should be; the listeners in the lists are those added and not removed, and the
events in the queue those that wait; none has been taken and not delivered. -/
def Delivers : Prop :=
  ∃ L, Ledger.readAll s.log = some L ∧ s.listening = L.registered ∧ s.pending = L.queued ∧ L.handed = none

/-- The loop over the list of `key` has not kept this listener, and has the list that `watcher` holds. -/
def Removable (key : EventName) (cb : Listener) (c : CallList) : Prop :=
  c.key = key → s.watcher key = some c.list ∧ cb ∉ c.nlist

instance (key : EventName) (cb : Listener) (c : CallList) : Decidable (s.Removable key cb c) :=
  inferInstanceAs (Decidable (_ → _))

end EventManager

/-- The steps at which the lists are safe. No event is called `'*'`; nobody listens to an event whose
list is being called; a listener in such a list is removed only before it has returned from this call,
and before a delivery inside of it has replaced the list; and no `Tick` begins inside another. -/
def CarefulEvents (s : EventManager) : EventManagerAct → Prop
  | .dispatch m => m.event ≠ .all
  | .dispatchImmediately m => m.event ≠ .all
  | .addListener key _ => ∀ c ∈ s.calls, c.key ≠ key
  | .removeListener key ptr =>
    ∀ cb ∈ (s.listening key).find? (fun cb => cb.ptr = ptr), ∀ c ∈ s.calls, s.Removable key cb c
  | .tick => s.ticks = []
  | .go => True
  | .ret => True

instance (s : EventManager) : (a : EventManagerAct) → Decidable (CarefulEvents s a)
  | .dispatch m => inferInstanceAs (Decidable (m.event ≠ .all))
  | .dispatchImmediately m => inferInstanceAs (Decidable (m.event ≠ .all))
  | .addListener key _ => inferInstanceAs (Decidable (∀ c ∈ s.calls, c.key ≠ key))
  | .removeListener key ptr => inferInstanceAs (Decidable
      (∀ cb ∈ (s.listening key).find? (fun cb => cb.ptr = ptr), ∀ c ∈ s.calls, s.Removable key cb c))
  | .tick => inferInstanceAs (Decidable (s.ticks = []))
  | .go => instDecidableTrue
  | .ret => instDecidableTrue

/-! ## Lists of listeners -/

theorem live_append (l l' : List (Option Listener)) : live (l ++ l') = live l ++ live l' := filterMap_append ..

theorem live_map_some (l : List Listener) : live (l.map some) = l := by
  induction l with
  | nil => rfl
  | cons cb l ih => exact congrArg (cb :: ·) ih

theorem length_clear (ptr : ℕ) (list : List (Option Listener)) :
    (EventManager.clear ptr list).length = list.length := by
  induction list with
  | nil => rfl
  | cons a list ih =>
    cases a with
    | none => simp only [EventManager.clear, length_cons, ih]
    | some cb =>
      simp only [EventManager.clear]
      split
      · rfl
      · simp only [length_cons, ih]

theorem live_clear (ptr : ℕ) (list : List (Option Listener)) :
    live (EventManager.clear ptr list) = (live list).eraseP fun cb => cb.ptr = ptr := by
  induction list with
  | nil => rfl
  | cons a list ih =>
    cases a with
    | none => exact ih
    | some cb =>
      have hcons : live (some cb :: list) = cb :: live list := rfl
      by_cases hp : cb.ptr = ptr
      · simp only [EventManager.clear, hp, if_true, hcons, eraseP_cons, decide_true, cond_true]
        rfl
      · simp only [EventManager.clear, hp, if_false, hcons, eraseP_cons, decide_false, cond_false]
        exact congrArg (cb :: ·) ih

theorem take_clear {ptr i : ℕ} {list : List (Option Listener)} {cb : Listener}
    (hfind : (live list).find? (fun cb => cb.ptr = ptr) = some cb) (h : cb ∉ live (list.take i)) :
    (EventManager.clear ptr list).take i = list.take i := by
  induction list generalizing i with
  | nil => cases hfind
  | cons a list ih =>
    cases i with
    | zero => rfl
    | succ i =>
      cases a with
      | none => exact congrArg (none :: ·) (ih hfind h)
      | some a =>
        have hlive : live (some a :: list) = a :: live list := rfl
        have htake : live ((some a :: list).take (i + 1)) = a :: live (list.take i) := rfl
        rw [hlive, List.find?_cons] at hfind
        rw [htake] at h
        by_cases hp : a.ptr = ptr
        · simp only [hp, decide_true] at hfind
          exact absurd (Option.some.inj hfind ▸ mem_cons_self) h
        · simp only [hp, decide_false] at hfind
          simp only [EventManager.clear, hp, if_false]
          exact congrArg (some a :: ·) (ih hfind fun hcb => h (mem_cons_of_mem _ hcb))

theorem clear_absent {ptr : ℕ} {list : List (Option Listener)}
    (h : (live list).find? (fun cb => cb.ptr = ptr) = none) : EventManager.clear ptr list = list := by
  induction list with
  | nil => rfl
  | cons a list ih =>
    cases a with
    | none => exact congrArg (none :: ·) (ih h)
    | some cb =>
      have hlive : live (some cb :: list) = cb :: live list := rfl
      rw [hlive, List.find?_cons] at h
      by_cases hp : cb.ptr = ptr
      · simp only [hp, decide_true] at h
        cases h
      · simp only [hp, decide_false] at h
        simp only [EventManager.clear, hp, if_false]
        exact congrArg (some cb :: ·) (ih h)

theorem mem_drop_clear {ptr : ℕ} {list : List (Option Listener)} {cb : Listener} (hnodup : (live list).Nodup)
    (hfind : (live list).find? (fun cb => cb.ptr = ptr) = some cb) (j : ℕ) (x : Listener) :
    x ∈ live ((EventManager.clear ptr list).drop j) ↔ x ∈ live (list.drop j) ∧ x ≠ cb := by
  induction list generalizing j with
  | nil => cases hfind
  | cons a list ih =>
    cases a with
    | none =>
      cases j with
      | zero => exact ih hnodup hfind 0
      | succ j => exact ih hnodup hfind j
    | some a =>
      have hlive : live (some a :: list) = a :: live list := rfl
      rw [hlive] at hnodup hfind
      obtain ⟨hnotin, hnodup⟩ := nodup_cons.mp hnodup
      have hne : ∀ y, y ∈ live list → y ≠ a := fun y hy heq => hnotin (heq ▸ hy)
      rw [List.find?_cons] at hfind
      by_cases hp : a.ptr = ptr
      · simp only [hp, decide_true] at hfind
        obtain rfl := Option.some.inj hfind
        simp only [EventManager.clear, hp, if_true]
        cases j with
        | zero =>
          change x ∈ live list ↔ x ∈ a :: live list ∧ x ≠ a
          rw [mem_cons]
          exact ⟨fun hx => ⟨.inr hx, hne x hx⟩, fun hx => hx.1.resolve_left hx.2⟩
        | succ j =>
          have hsub : (live (list.drop j)).Sublist (live list) := (drop_sublist j list).filterMap id
          exact ⟨fun hx => ⟨hx, hne x (hsub.subset hx)⟩, fun hx => hx.1⟩
      · simp only [hp, decide_false] at hfind
        simp only [EventManager.clear, hp, if_false]
        cases j with
        | zero =>
          change x ∈ a :: live (EventManager.clear ptr list) ↔ x ∈ a :: live list ∧ x ≠ cb
          have hcb : a ≠ cb := (hne cb (List.mem_of_find?_eq_some hfind)).symm
          have hrest := ih hnodup hfind 0
          simp only [drop_zero] at hrest
          rw [mem_cons, mem_cons, hrest]
          constructor
          · rintro (rfl | hx)
            · exact ⟨.inl rfl, hcb⟩
            · exact ⟨.inr hx.1, hx.2⟩
          · rintro ⟨rfl | hx, hxcb⟩
            · exact .inl rfl
            · exact .inr ⟨hx, hxcb⟩
        | succ j => exact ih hnodup hfind j

theorem live_drop (i : ℕ) :
    live (list.drop i) = live list[i]?.toList ++ live (list.drop (i + 1)) := by
  rw [← live_append]
  by_cases hi : i < list.length
  · rw [drop_eq_getElem_cons hi, List.getElem?_eq_getElem hi]
    rfl
  · rw [List.getElem?_eq_none (by omega), drop_eq_nil_of_le (by omega), drop_eq_nil_of_le (by omega)]
    rfl

theorem live_take (i : ℕ) :
    live (list.take (i + 1)) = live (list.take i) ++ live list[i]?.toList := by
  rw [take_add_one, live_append]

/-! ## The invariant -/

namespace EventManager

def ahead (s : EventManager) (c : CallList) : List Listener :=
  live ((s.lists c.list).drop (if c.running then c.i + 1 else c.i)) ++ if c.second then [] else s.listening .all

/-- The loop in progress, with the delivery it belongs to. -/
structure Covered (s : EventManager) (c : CallList) (d : Delivery) : Prop where
  event : d.event = c.msg.event
  named : c.msg.event ≠ .all
  length : c.n = (s.lists c.list).length
  owner : ∀ key, s.watcher key = some c.list → key = c.key
  old : c.list < s.nextList
  same : live (s.lists c.list) = s.listening c.key
  kept : c.nlist = live ((s.lists c.list).take c.i)
  fresh : ∀ cb ∈ d.called, cb ∉ s.ahead c
  due : ∀ cb ∈ d.due, cb ∈ d.called ∨ (cb ∉ s.listening d.event ∧ cb ∉ s.listening .all) ∨ cb ∈ s.ahead c
  issued : ∀ cb, cb ∈ d.called ∨ cb ∈ d.due → cb.id < s.nextListener

structure Registry (s : EventManager) : Prop where
  below : ∀ key p, s.watcher key = some p → p < s.nextList
  owned : ∀ key key' p, s.watcher key = some p → s.watcher key' = some p → key = key'
  numbered : ∀ key, ∀ cb ∈ s.listening key, cb.id < s.nextListener
  once : ∀ key, (s.listening key).Nodup
  one : ∀ key key' cb, cb ∈ s.listening key → cb ∈ s.listening key' → key = key'

structure Sound (s : EventManager) (L : Ledger) : Prop where
  registry : Registry s
  listening : s.listening = L.registered
  pending : s.pending = L.queued
  deliveries : List.Forall₂ (Covered s) s.calls L.deliveries
  named : ∀ m ∈ s.pending, m.event ≠ .all
  ticks : s.ticks = [] ∨ ∃ i, s.ticks = [(s.list, i)] ∧ i ≤ (s.queues s.list).length
  handed : L.handed = none

def Inv (s : EventManager) : Prop := ∃ L, Ledger.readAll s.log = some L ∧ Sound s L

theorem Inv.delivers {s : EventManager} (h : s.Inv) : s.Delivers := by
  obtain ⟨L, hlog, hs⟩ := h
  exact ⟨L, hlog, hs.listening, hs.pending, hs.handed⟩

theorem inv_new : Inv {} := by
  refine ⟨{}, rfl, ⟨?_, rfl, rfl, .nil, nofun, .inl rfl, rfl⟩⟩
  exact ⟨nofun, nofun, fun _ _ h => absurd h not_mem_nil, fun _ => nodup_nil,
    fun _ _ _ h => absurd h not_mem_nil⟩

theorem readAll_read {log : List EventNote} {L : Ledger} (h : Ledger.readAll log = some L) (e : EventNote) :
    Ledger.readAll (log ++ [e]) = L.read e := by
  rw [Ledger.readAll] at h ⊢
  rw [foldlM_append, h]
  exact Option.bind_fun_some _

theorem readAll_snoc {log : List EventNote} {L : Ledger} (h : Ledger.readAll log = some L) (hidle : L.handed = none)
    (e : EventNote) : Ledger.readAll (log ++ [e]) = L.readNote e := by
  rw [readAll_read h, Ledger.read, hidle]

/-- A delivery begins, by itself or of the event that has just left the queue. -/
theorem readAll_began {log : List EventNote} {L : Ledger} (hidle : L.handed = none) {m : Message}
    (h : Ledger.readAll log = some L ∨ Ledger.readAll log = some { L with handed := some m }) :
    Ledger.readAll (log ++ [.began m]) = L.readNote (.began m) := by
  rcases h with h | h
  · exact readAll_snoc h hidle _
  · have hsame : { L with handed := none } = L := by
      rw [← hidle]
    rw [readAll_read h, Ledger.read]
    simp only [if_true]
    rw [hsame]

/-! ## What a step leaves alone -/

section
variable {s s' : EventManager} {L : Ledger} {c : CallList} {d : Delivery}

theorem Covered.frame (h : Covered s c d) (hlists : s'.lists c.list = s.lists c.list)
    (hlistening : s'.listening = s.listening)
    (hwatcher : ∀ key, s'.watcher key = some c.list → s.watcher key = some c.list) (hnext : s.nextList ≤ s'.nextList)
    (hid : s.nextListener ≤ s'.nextListener) : Covered s' c d := by
  have hahead : s'.ahead c = s.ahead c := by
    simp only [ahead, hlists, hlistening]
  refine ⟨h.event, h.named, ?_, fun key hk => h.owner key (hwatcher key hk), h.old.trans_le hnext, ?_, ?_, ?_, ?_, ?_⟩
  · rw [hlists]
    exact h.length
  · rw [hlists, hlistening]
    exact h.same
  · rw [hlists]
    exact h.kept
  · rw [hahead]
    exact h.fresh
  · rw [hahead, hlistening]
    exact h.due
  · exact fun cb hcb => (h.issued cb hcb).trans_le hid

theorem listening_of_some {key : EventName} {p : ℕ} (h : s.watcher key = some p) : s.listening key = live (s.lists p) := by
  rw [EventManager.listening, h]

theorem listening_of_none {key : EventName} (h : s.watcher key = none) : s.listening key = [] := by
  rw [EventManager.listening, h]

theorem listening_congr (hlists : s'.lists = s.lists) (hwatcher : s'.watcher = s.watcher) :
    s'.listening = s.listening := by
  funext key
  simp only [EventManager.listening, hlists, hwatcher]

theorem Registry.frame (h : Registry s) (hlists : s'.lists = s.lists) (hwatcher : s'.watcher = s.watcher)
    (hnext : s'.nextList = s.nextList) (hid : s'.nextListener = s.nextListener) : Registry s' := by
  have hlistening := listening_congr hlists hwatcher
  refine ⟨?_, ?_, ?_, ?_, ?_⟩
  · rw [hwatcher, hnext]
    exact h.below
  · rw [hwatcher]
    exact h.owned
  · rw [hlistening, hid]
    exact h.numbered
  · rw [hlistening]
    exact h.once
  · rw [hlistening]
    exact h.one

theorem Sound.frame (h : Sound s L) (hlists : s'.lists = s.lists) (hwatcher : s'.watcher = s.watcher)
    (hnext : s'.nextList = s.nextList) (hid : s'.nextListener = s.nextListener) (hcalls : s'.calls = s.calls)
    {queued : List Message} (hpending : s'.pending = queued) (hnamed : ∀ m ∈ queued, m.event ≠ .all)
    (hticks : s'.ticks = [] ∨ ∃ i, s'.ticks = [(s'.list, i)] ∧ i ≤ (s'.queues s'.list).length) :
    Sound s' { L with queued := queued } := by
  have hlistening := listening_congr hlists hwatcher
  refine ⟨h.registry.frame hlists hwatcher hnext hid, hlistening.trans h.listening, hpending, ?_, hpending ▸ hnamed,
    hticks, h.handed⟩
  rw [hcalls]
  refine h.deliveries.imp fun c d hc => hc.frame (by rw [hlists]) hlistening (fun key hk => ?_) hnext.ge hid.ge
  rw [← hwatcher]
  exact hk

theorem Sound.note (h : Sound s L) (e : EventNote) : Sound (s.note e) L :=
  @Sound.frame s (s.note e) L h rfl rfl rfl rfl rfl L.queued h.pending (h.pending ▸ h.named) h.ticks

theorem Sound.push (h : Sound s L) (hc : Covered (s.push (.callList c)) c d) :
    Sound (s.push (.callList c)) { L with deliveries := d :: L.deliveries } := by
  refine ⟨h.registry.frame rfl rfl rfl rfl, h.listening, h.pending, ?_, h.named, h.ticks, h.handed⟩
  refine .cons hc (h.deliveries.imp fun c d hc => ?_)
  exact hc.frame rfl rfl (fun _ hk => hk) (le_refl _) (le_refl _)

/-! ## The queue -/

theorem Sound.reached_le (h : Sound s L) : s.reached ≤ (s.queues s.list).length := by
  rcases h.ticks with ht | ⟨i, ht, hi⟩
  · rw [reached, ht]
    exact Nat.zero_le _
  · rw [reached, ht]
    exact hi

theorem Inv.dispatch (h : s.Inv) {m : Message} (hm : m.event ≠ .all) : (s.dispatch m).Inv := by
  obtain ⟨L, hlog, hs⟩ := h
  unfold EventManager.dispatch
  split
  · have hqueue : update s.queues s.list (s.queues s.list ++ [m]) s.list = s.queues s.list ++ [m] :=
      update_self ..
    let s' : EventManager :=
      { s with queues := update s.queues s.list (s.queues s.list ++ [m]), log := s.log ++ [.queued m] }
    refine ⟨{ L with queued := L.queued ++ [m] }, readAll_snoc hlog hs.handed _,
      @Sound.frame s s' L hs rfl rfl rfl rfl rfl (L.queued ++ [m]) ?_ ?_ ?_⟩
    · have hle := hs.reached_le
      rw [← hs.pending]
      change (update s.queues s.list (s.queues s.list ++ [m]) s.list).drop s.reached = _
      rw [hqueue, drop_append_of_le_length hle]
      rfl
    · intro m' hm'
      rcases mem_append.mp hm' with hm' | hm'
      · exact hs.named m' (hs.pending ▸ hm')
      · rw [mem_singleton.mp hm']
        exact hm
    · refine hs.ticks.imp id fun ⟨i, ht, hi⟩ => ⟨i, ht, ?_⟩
      change i ≤ (update s.queues s.list (s.queues s.list ++ [m]) s.list).length
      rw [hqueue, length_append]
      omega
  · exact ⟨L, hlog, hs⟩

theorem Inv.tick (h : s.Inv) (ht : s.ticks = []) : (s.push (.tick s.list 0)).Inv := by
  obtain ⟨L, hlog, hs⟩ := h
  have hticks : (s.push (.tick s.list 0)).ticks = [(s.list, 0)] := congrArg ((s.list, 0) :: ·) ht
  have hpending : (s.push (.tick s.list 0)).pending = L.queued := by
    rw [← hs.pending, EventManager.pending, EventManager.pending, reached, reached, hticks, ht]
    rfl
  exact ⟨L, hlog, @Sound.frame s (s.push (.tick s.list 0)) L hs rfl rfl rfl rfl rfl L.queued hpending
    (hs.pending ▸ hs.named) (.inr ⟨0, hticks, Nat.zero_le _⟩)⟩

/-! ## Calling -/

structure Between (s : EventManager) (d : Delivery) (m : Message) : Prop where
  event : d.event = m.event
  named : m.event ≠ .all
  fresh : ∀ cb ∈ d.called, cb ∉ s.listening .all
  due : ∀ cb ∈ d.due, cb ∈ d.called ∨ (cb ∉ s.listening d.event ∧ cb ∉ s.listening .all) ∨ cb ∈ s.listening .all
  issued : ∀ cb, cb ∈ d.called ∨ cb ∈ d.due → cb.id < s.nextListener

theorem Sound.listens (h : Sound s L) (event : EventName) (cb : Listener) :
    L.Listens event cb ↔ cb ∈ s.listening event ∨ cb ∈ s.listening .all := by
  rw [h.listening]
  rfl

theorem Sound.finished (h : Sound s L) (hlog : Ledger.readAll s.log = some { L with deliveries := d :: L.deliveries })
    (hdue : ∀ cb ∈ d.due, cb ∈ d.called ∨ (cb ∉ s.listening d.event ∧ cb ∉ s.listening .all)) :
    (s.note .finished).Inv := by
  refine ⟨L, ?_, h.note .finished⟩
  refine (readAll_snoc hlog h.handed .finished).trans (if_pos fun cb hcb hl => ?_)
  refine (hdue cb hcb).resolve_right fun hgone => ?_
  exact ((h.listens d.event cb).mp hl).elim hgone.1 hgone.2

theorem Inv.callStar {m : Message} (h : Sound s L)
    (hlog : Ledger.readAll s.log = some { L with deliveries := d :: L.deliveries }) (hb : Between s d m) :
    (s.callStar m).Inv := by
  cases hw : s.watcher .all with
  | none =>
    rw [EventManager.callStar, hw]
    refine h.finished hlog fun cb hcb => (hb.due cb hcb).imp id fun hd => hd.resolve_right ?_
    rw [listening_of_none hw]
    exact not_mem_nil
  | some p =>
    let c : CallList := { msg := m, second := true, list := p, n := (s.lists p).length }
    have hahead : (s.push (.callList c)).ahead c = s.listening .all := by
      rw [listening_of_some hw]
      exact append_nil _
    have hc : Covered (s.push (.callList c)) c d :=
      { event := hb.event
        named := hb.named
        length := rfl
        owner := fun key hk => h.registry.owned key .all p hk hw
        old := h.registry.below .all p hw
        same := (listening_of_some hw).symm
        kept := rfl
        fresh := by
          rw [hahead]
          exact hb.fresh
        due := by
          rw [hahead]
          exact hb.due
        issued := hb.issued }
    rw [EventManager.callStar, hw]
    exact ⟨_, hlog, h.push hc⟩

theorem Sound.call {m : Message} (hs : Sound s L)
    (hlog : Ledger.readAll s.log = some L ∨ Ledger.readAll s.log = some { L with handed := some m }) (hm : m.event ≠ .all) :
    (s.call m).Inv := by
  let d : Delivery := ⟨m.event, L.registered m.event ++ L.registered .all, []⟩
  have hbegan : Ledger.readAll (s.note (.began m)).log = some { L with deliveries := d :: L.deliveries } :=
    readAll_began hs.handed hlog
  have hdue : ∀ cb ∈ d.due, cb ∈ s.listening m.event ∨ cb ∈ s.listening .all := by
    intro cb hcb
    rw [hs.listening]
    exact mem_append.mp hcb
  have hissued : ∀ cb, cb ∈ d.called ∨ cb ∈ d.due → cb.id < s.nextListener := by
    rintro cb (hcb | hcb)
    · exact absurd hcb not_mem_nil
    · exact (hdue cb hcb).elim (hs.registry.numbered _ cb) (hs.registry.numbered _ cb)
  cases hw : s.watcher m.event with
  | none =>
    have hcall : s.call m = (s.note (.began m)).callStar m := by
      simp only [EventManager.call, EventManager.note, hw]
    rw [hcall]
    refine Inv.callStar (hs.note _) hbegan ⟨rfl, hm, nofun, fun cb hcb => .inr (.inr ?_), hissued⟩
    refine (hdue cb hcb).resolve_left ?_
    rw [listening_of_none hw]
    exact not_mem_nil
  | some p =>
    let c : CallList := { msg := m, second := false, list := p, n := (s.lists p).length }
    have hc : Covered ((s.note (.began m)).push (.callList c)) c d :=
      { event := rfl
        named := hm
        length := rfl
        owner := fun key hk => hs.registry.owned key m.event p hk hw
        old := hs.registry.below m.event p hw
        same := (listening_of_some hw).symm
        kept := rfl
        fresh := nofun
        due := by
          intro cb hcb
          refine .inr (.inr (mem_append.mpr ?_))
          have hlive : s.listening m.event = live (s.lists p) := listening_of_some hw
          exact (hdue cb hcb).imp (fun hl => hlive ▸ hl) id
        issued := hissued }
    have hcall : s.call m = (s.note (.began m)).push (.callList c) := by
      simp only [EventManager.call, EventManager.note, hw, c]
    rw [hcall]
    exact ⟨_, hbegan, (hs.note _).push hc⟩

/-! ## The loop over the listeners -/

theorem Sound.pop (h : Sound s L) {rest : List EventFrame} (hf : s.frames = .callList c :: rest) :
    ∃ d ds, L.deliveries = d :: ds ∧ Covered s c d ∧ Sound { s with frames := rest } { L with deliveries := ds } := by
  have hcalls : s.calls = c :: EventManager.calls { s with frames := rest } := by
    rw [calls, hf]
    rfl
  have hticks : s.ticks = EventManager.ticks { s with frames := rest } := by
    rw [EventManager.ticks, hf]
    rfl
  have hpending : EventManager.pending { s with frames := rest } = s.pending := by
    simp only [EventManager.pending, reached, hticks]
  have hd := h.deliveries
  rw [hcalls] at hd
  cases hds : L.deliveries with
  | nil =>
    rw [hds] at hd
    cases hd
  | cons d ds =>
    rw [hds] at hd
    obtain ⟨hc, hrest⟩ := forall₂_cons.mp hd
    refine ⟨d, ds, rfl, hc, h.registry.frame rfl rfl rfl rfl, h.listening, hpending.trans h.pending, ?_, ?_, ?_, h.handed⟩
    · refine hrest.imp fun c d hc => hc.frame rfl rfl (fun _ hk => hk) (le_refl _) (le_refl _)
    · rw [hpending]
      exact h.named
    · rw [← hticks]
      exact h.ticks

theorem ahead_nodup (h : Registry s) (hc : Covered s c d) : (s.ahead c).Nodup := by
  have hlive : (live (s.lists c.list)).Nodup := by
    rw [hc.same]
    exact h.once c.key
  have hdrop : ∀ i, (live ((s.lists c.list).drop i)).Sublist (live (s.lists c.list)) :=
    fun i => (drop_sublist i _).filterMap id
  rw [ahead]
  refine (hlive.sublist (hdrop _)).append ?_ ?_
  · split
    · exact nodup_nil
    · exact h.once .all
  · intro cb hcb hall
    split at hall
    · exact not_mem_nil hall
    · next hsecond =>
      have hkey : c.key = c.msg.event := if_neg hsecond
      have hmem := (hdrop _).subset hcb
      rw [hc.same, hkey] at hmem
      exact hc.named (h.one _ _ cb hmem hall)

theorem Covered.called {cb : Listener} (h : Registry s) (hc : Covered s c d) (hr : c.running = false)
    (hi : (s.lists c.list)[c.i]? = some (some cb)) :
    cb ∉ d.called ∧ (cb ∈ s.listening d.event ∨ cb ∈ s.listening .all) ∧
      Covered s { c with running := true } { d with called := d.called ++ [cb] } := by
  have hahead : s.ahead c = cb :: s.ahead { c with running := true } := by
    simp only [ahead, hr, Bool.false_eq_true, if_false, if_true]
    rw [live_drop, hi]
    rfl
  have hnodup := ahead_nodup h hc
  rw [hahead] at hnodup
  have hmem : cb ∈ s.listening c.key := by
    rw [← hc.same]
    exact mem_filterMap.mpr ⟨some cb, mem_of_getElem? hi, rfl⟩
  refine ⟨fun hcb => hc.fresh cb hcb (hahead ▸ mem_cons_self), ?_, hc.event, hc.named, hc.length, hc.owner, hc.old,
    hc.same, hc.kept, ?_, ?_, ?_⟩
  · rw [hc.event]
    unfold CallList.key at hmem
    split at hmem
    · exact .inr hmem
    · exact .inl hmem
  · intro cb' hcb'
    rcases mem_append.mp hcb' with hcb' | hcb'
    · exact fun hin => hc.fresh cb' hcb' (hahead ▸ mem_cons_of_mem _ hin)
    · rw [mem_singleton.mp hcb']
      exact (nodup_cons.mp hnodup).1
  · intro cb' hcb'
    rcases hc.due cb' hcb' with hcalled | hgone | hin
    · exact .inl (mem_append_left _ hcalled)
    · exact .inr (.inl hgone)
    · rw [hahead] at hin
      rcases mem_cons.mp hin with rfl | hin
      · exact .inl (mem_append_right _ (mem_singleton_self _))
      · exact .inr (.inr hin)
  · rintro cb' (hcb' | hcb')
    · rcases mem_append.mp hcb' with hcb' | hcb'
      · exact hc.issued cb' (.inl hcb')
      · rw [mem_singleton.mp hcb']
        exact h.numbered _ cb hmem
    · exact hc.issued cb' (.inr hcb')

theorem Covered.next (hc : Covered s c d) {nlist : List Listener}
    (hkept : nlist = c.nlist ++ live (s.lists c.list)[c.i]?.toList)
    (hahead : s.ahead { c with i := c.i + 1, nlist := nlist, running := false } = s.ahead c) :
    Covered s { c with i := c.i + 1, nlist := nlist, running := false } d := by
  refine ⟨hc.event, hc.named, hc.length, hc.owner, hc.old, hc.same, ?_, ?_, ?_, hc.issued⟩
  · rw [hkept, hc.kept, live_take]
  · rw [hahead]
    exact hc.fresh
  · rw [hahead]
    exact hc.due

/-! ## The new list -/

theorem Sound.store_nil (h : Sound s L) {key : EventName} (hn : [] = s.listening key) :
    Sound (s.store key []) L ∧ (s.store key []).listening = s.listening := by
  have hr := h.registry
  have hwatcher : ∀ k p, update s.watcher key none k = some p → k ≠ key ∧ s.watcher k = some p := by
    intro k p hk
    by_cases hkey : k = key
    · rw [hkey, update_self] at hk
      cases hk
    · rw [update_of_ne hkey] at hk
      exact ⟨hkey, hk⟩
  have hlistening : (s.store key []).listening = s.listening := by
    funext k
    by_cases hkey : k = key
    · rw [hkey, ← hn]
      exact listening_of_none (update_self ..)
    · simp only [EventManager.listening, EventManager.store, update_of_ne hkey]
  refine ⟨⟨⟨?_, ?_, ?_, ?_, ?_⟩, hlistening.trans h.listening, h.pending, ?_, h.named, h.ticks, h.handed⟩, hlistening⟩
  · exact fun k p hk => hr.below k p (hwatcher k p hk).2
  · exact fun k k' p hk hk' => hr.owned k k' p (hwatcher k p hk).2 (hwatcher k' p hk').2
  · rw [hlistening]
    exact hr.numbered
  · rw [hlistening]
    exact hr.once
  · rw [hlistening]
    exact hr.one
  · exact h.deliveries.imp fun c d hc =>
      hc.frame rfl hlistening (fun k hk => (hwatcher k _ hk).2) (le_refl _) (le_refl _)

theorem Sound.store_cons (h : Sound s L) {key : EventName} {cb : Listener} {nlist : List Listener}
    (hn : cb :: nlist = s.listening key) :
    Sound (s.store key (cb :: nlist)) L ∧ (s.store key (cb :: nlist)).listening = s.listening := by
  have hr := h.registry
  have hwatcher : ∀ k p, update s.watcher key (some s.nextList) k = some p →
      k = key ∧ p = s.nextList ∨ k ≠ key ∧ p < s.nextList ∧ s.watcher k = some p := by
    intro k p hk
    by_cases hkey : k = key
    · rw [hkey, update_self] at hk
      exact .inl ⟨hkey, (Option.some.inj hk).symm⟩
    · rw [update_of_ne hkey] at hk
      exact .inr ⟨hkey, hr.below k p hk, hk⟩
  have hlists : ∀ p, p < s.nextList → (s.store key (cb :: nlist)).lists p = s.lists p := by
    intro p hp
    simp only [EventManager.store, update_of_ne (Nat.ne_of_lt hp)]
  have hlistening : (s.store key (cb :: nlist)).listening = s.listening := by
    funext k
    cases hk : update s.watcher key (some s.nextList) k with
    | none =>
      have hkey : k ≠ key := by
        rintro rfl
        rw [update_self] at hk
        cases hk
      rw [update_of_ne hkey] at hk
      rw [listening_of_none hk]
      exact listening_of_none ((update_of_ne hkey _ _).trans hk)
    | some p =>
      have hnew : (s.store key (cb :: nlist)).listening k = live ((s.store key (cb :: nlist)).lists p) :=
        listening_of_some hk
      rcases hwatcher k p hk with ⟨rfl, rfl⟩ | ⟨_, hp, hold⟩
      · rw [hnew, ← hn]
        simp only [EventManager.store, update_self, live_map_some]
      · rw [hnew, hlists p hp, listening_of_some hold]
  refine ⟨⟨⟨?_, ?_, ?_, ?_, ?_⟩, hlistening.trans h.listening, h.pending, ?_, h.named, h.ticks, h.handed⟩, hlistening⟩
  · intro k p hk
    rcases hwatcher k p hk with ⟨_, rfl⟩ | ⟨_, hp, _⟩
    · exact lt_succ_self _
    · exact hp.trans (lt_succ_self _)
  · intro k k' p hk hk'
    rcases hwatcher k p hk with ⟨rfl, hp⟩ | ⟨_, hp, hold⟩
    · rcases hwatcher k' p hk' with ⟨rfl, _⟩ | ⟨_, hp', _⟩
      · rfl
      · omega
    · rcases hwatcher k' p hk' with ⟨_, hp'⟩ | ⟨_, _, hold'⟩
      · omega
      · exact hr.owned k k' p hold hold'
  · rw [hlistening]
    exact hr.numbered
  · rw [hlistening]
    exact hr.once
  · rw [hlistening]
    exact hr.one
  · refine h.deliveries.imp fun c d hc => ?_
    refine hc.frame (hlists c.list hc.old) hlistening (fun k hk => ?_) (le_succ _) (le_refl _)
    rcases hwatcher k c.list hk with ⟨_, heq⟩ | ⟨_, _, hold⟩
    · have hlt := hc.old
      omega
    · exact hold

theorem Sound.store (h : Sound s L) {key : EventName} {nlist : List Listener} (hn : nlist = s.listening key) :
    Sound (s.store key nlist) L ∧ (s.store key nlist).listening = s.listening := by
  cases nlist with
  | nil => exact h.store_nil hn
  | cons cb nlist => exact h.store_cons hn

theorem store_log (key : EventName) (nlist : List Listener) :
    (s.store key nlist).log = s.log ∧ (s.store key nlist).nextListener = s.nextListener := by
  cases nlist with
  | nil => exact ⟨rfl, rfl⟩
  | cons cb nlist => exact ⟨rfl, rfl⟩

theorem Inv.callListRound (h : s.Inv) {rest : List EventFrame} (hf : s.frames = .callList c :: rest)
    (hr : c.running = false) : (s.callListRound c rest).Inv := by
  obtain ⟨L, hlog, hs⟩ := h
  obtain ⟨d, ds, hds, hc, hpop⟩ := hs.pop hf
  have hlog' : Ledger.readAll s.log = some { L with deliveries := d :: ds } := by
    rw [hlog, ← hds]
  have hc' : Covered { s with frames := rest } c d := hc.frame rfl rfl (fun _ hk => hk) (le_refl _) (le_refl _)
  unfold EventManager.callListRound
  split
  · split
    · next cb hi =>
      obtain ⟨hnew, hlistens, hcalled⟩ := hc'.called hpop.registry hr hi
      have hread : Ledger.readAll (s.log ++ [.called cb]) =
          some { L with deliveries := { d with called := d.called ++ [cb] } :: ds } := by
        refine (readAll_snoc hlog' hpop.handed _).trans (if_pos ⟨?_, hnew⟩)
        exact (hpop.listens d.event cb).mpr hlistens
      refine ⟨_, hread, (hpop.note (.called cb)).push ?_⟩
      exact hcalled.frame rfl rfl (fun _ hk => hk) (le_refl _) (le_refl _)
    · next hi =>
      have hdead : live (s.lists c.list)[c.i]?.toList = [] := by
        cases hget : (s.lists c.list)[c.i]? with
        | none => rfl
        | some a =>
          cases a with
          | none => rfl
          | some cb => exact absurd hget (hi cb)
      have hnext : Covered { s with frames := rest } { c with i := c.i + 1, nlist := c.nlist, running := false } d := by
        refine hc'.next ?_ ?_
        · rw [hdead, append_nil]
        · simp only [ahead, hr, Bool.false_eq_true, if_false]
          rw [live_drop _ c.i, hdead, nil_append]
      rw [← hr] at hnext
      refine ⟨_, hlog', hpop.push ?_⟩
      exact hnext.frame rfl rfl (fun _ hk => hk) (le_refl _) (le_refl _)
  · next hi =>
    have hnlist : c.nlist = EventManager.listening { s with frames := rest } c.key := by
      rw [hc'.kept, ← hc'.same, take_of_length_le]
      rw [← hc'.length]
      omega
    have hahead : s.ahead c = if c.second then [] else s.listening .all := by
      simp only [ahead, hr, Bool.false_eq_true, if_false]
      rw [drop_eq_nil_of_le]
      · rfl
      · rw [← hc.length]
        omega
    obtain ⟨hstore, hlistening⟩ := hpop.store hnlist
    obtain ⟨hlog₁, hid⟩ := @store_log { s with frames := rest } c.key c.nlist
    rw [← hlog₁] at hlog'
    have hdue := hc.due
    have hfresh := hc.fresh
    rw [hahead] at hdue
    simp only [hahead] at hfresh
    simp only
    split
    · next hsecond =>
      simp only [hsecond, if_true] at hdue
      refine hstore.finished hlog' fun cb hcb => ?_
      rw [hlistening]
      refine (hdue cb hcb).imp id fun hd => hd.resolve_right not_mem_nil
    · next hsecond =>
      simp only [hsecond] at hdue hfresh
      refine Inv.callStar hstore hlog' ⟨hc.event, hc.named, ?_, ?_, ?_⟩
      · rw [hlistening]
        exact hfresh
      · rw [hlistening]
        exact hdue
      · rw [hid]
        exact hc.issued

theorem Inv.ret (h : s.Inv) : s.ret.Inv := by
  unfold EventManager.ret
  split
  · next c rest hf =>
    split
    · next hr =>
      obtain ⟨L, hlog, hs⟩ := h
      obtain ⟨d, ds, hds, hc, hpop⟩ := hs.pop hf
      have hlog' : Ledger.readAll s.log = some { L with deliveries := d :: ds } := by
        rw [hlog, ← hds]
      have hc' : Covered { s with frames := rest } c d := hc.frame rfl rfl (fun _ hk => hk) (le_refl _) (le_refl _)
      refine ⟨_, hlog', hpop.push (Covered.frame (hc'.next ?_ ?_) rfl rfl (fun _ hk => hk) (le_refl _) (le_refl _))⟩
      · cases (s.lists c.list)[c.i]? with
        | none => exact (append_nil _).symm
        | some a =>
          cases a with
          | none => exact (append_nil _).symm
          | some cb => rfl
      · simp only [ahead, hr, if_true, Bool.false_eq_true, if_false]
    · exact h
  · exact h

theorem Inv.tickRound (h : s.Inv) {list i : ℕ} {rest : List EventFrame} (hf : s.frames = .tick list i :: rest) :
    (s.tickRound list i rest).Inv := by
  obtain ⟨L, hlog, hs⟩ := h
  have hticks : s.ticks = (list, i) :: EventManager.ticks { s with frames := rest } := by
    rw [EventManager.ticks, hf]
    rfl
  have hcalls : s.calls = EventManager.calls { s with frames := rest } := by
    rw [calls, hf]
    rfl
  obtain ⟨hlist, hnone, hi⟩ : list = s.list ∧ EventManager.ticks { s with frames := rest } = [] ∧
      i ≤ (s.queues s.list).length := by
    rcases hs.ticks with ht | ⟨j, ht, hj⟩
    · rw [hticks] at ht
      cases ht
    · rw [hticks] at ht
      obtain ⟨hpair, hnone⟩ := cons.inj ht
      obtain ⟨rfl, rfl⟩ := Prod.mk.inj hpair
      exact ⟨rfl, hnone, hj⟩
  subst hlist
  have hpending : s.pending = (s.queues s.list).drop i := by
    rw [EventManager.pending, reached, hticks]
  unfold EventManager.tickRound
  cases hget : (s.queues s.list)[i]? with
  | some m =>
    obtain ⟨hlt, hm⟩ := List.getElem?_eq_some_iff.mp hget
    rw [drop_eq_getElem_cons hlt, hm] at hpending
    let s' : EventManager := { s with frames := .tick s.list (i + 1) :: rest, log := s.log ++ [.taken m] }
    have hticks' : s'.ticks = [(s'.list, i + 1)] := congrArg ((s.list, i + 1) :: ·) hnone
    have hpending' : s'.pending = (s.queues s.list).drop (i + 1) := by
      rw [EventManager.pending, reached, hticks']
    have hnamed := hs.named
    rw [hpending] at hnamed
    have hs' := @Sound.frame s s' L hs rfl rfl rfl rfl hcalls.symm _ hpending'
      (fun m' hm' => hnamed m' (mem_cons_of_mem m hm')) (.inr ⟨i + 1, hticks', hlt⟩)
    refine hs'.call (.inr ?_) (hnamed m mem_cons_self)
    refine (readAll_snoc hlog hs.handed _).trans ?_
    simp only [Ledger.readNote, ← hs.pending, hpending, if_true]
  | none =>
    have hge := List.getElem?_eq_none_iff.mp hget
    rw [drop_eq_nil_of_le hge] at hpending
    let s' : EventManager := { s with
      frames := rest
      list := s.nextQueue
      queues := update s.queues s.nextQueue []
      nextQueue := s.nextQueue + 1
      log := s.log ++ [.ticked] }
    have hticks' : s'.ticks = [] := hnone
    have hpending' : s'.pending = L.queued := by
      rw [← hs.pending, hpending, EventManager.pending, reached, hticks']
      exact congrArg (List.drop 0) (update_self ..)
    refine ⟨L, ?_, @Sound.frame s s' L hs rfl rfl rfl rfl hcalls.symm _ hpending' (hs.pending ▸ hs.named) (.inl hticks')⟩
    refine (readAll_snoc hlog hs.handed _).trans (if_pos ?_)
    rw [← hs.pending, hpending]

/-! ## Adding and removing -/

theorem listening_update {key : EventName} {new : List Listener} (hkey : s'.listening key = new)
    (hother : ∀ k, k ≠ key → s'.listening k = s.listening k) :
    s'.listening = update s.listening key new := by
  funext k
  by_cases hk : k = key
  · rw [hk, hkey, update_self]
  · rw [hother k hk, update_of_ne hk]

structure Grown (s s' : EventManager) (key : EventName) (cb : Listener) : Prop where
  listening : s'.listening = update s.listening key (s.listening key ++ [cb])
  watcher : ∀ k p, s'.watcher k = some p → s.watcher k = some p ∨ k = key ∧ p = s.nextList
  lists : ∀ p, p < s.nextList → s.watcher key ≠ some p → s'.lists p = s.lists p
  nextList : s.nextList ≤ s'.nextList
  below : ∀ k p, s'.watcher k = some p → p < s'.nextList
  nextListener : s'.nextListener = s.nextListener + 1
  calls : s'.calls = s.calls
  ticks : s'.ticks = s.ticks
  queues : s'.queues = s.queues
  list : s'.list = s.list

theorem Registry.grown_old (h : Registry s) {key : EventName} (ptr : ℕ) {p : ℕ} (hw : s.watcher key = some p) :
    Grown s (s.watch key ptr) key ⟨s.nextListener, ptr⟩ := by
  let s' : EventManager := { s with
    lists := update s.lists p (s.lists p ++ [some ⟨s.nextListener, ptr⟩])
    nextListener := s.nextListener + 1
    log := s.log ++ [.added key ⟨s.nextListener, ptr⟩] }
  have hwatch : s.watch key ptr = s' := by
    simp only [EventManager.watch, hw, s']
  rw [hwatch]
  have hkey : s'.listening key = s.listening key ++ [⟨s.nextListener, ptr⟩] := by
    have hnew : s'.listening key = live (s'.lists p) := listening_of_some hw
    rw [hnew, listening_of_some hw]
    simp only [s', update_self, live_append]
    rfl
  have hother : ∀ k, k ≠ key → s'.listening k = s.listening k := by
    intro k hk
    cases hk' : s.watcher k with
    | none => rw [listening_of_none hk', @listening_of_none s' k hk']
    | some p' =>
      have hne : p' ≠ p := fun heq => hk (h.owned k key p' hk' (heq ▸ hw))
      rw [listening_of_some hk', @listening_of_some s' k p' hk']
      simp only [s', update_of_ne hne]
  exact
    { listening := listening_update hkey hother
      watcher := fun _ _ hk => .inl hk
      lists := fun p' _ hp' => update_of_ne (fun heq => hp' (by rw [hw, heq])) _ _
      nextList := le_refl _
      below := h.below
      nextListener := rfl
      calls := rfl
      ticks := rfl
      queues := rfl
      list := rfl }

theorem Registry.grown_new (h : Registry s) {key : EventName} (ptr : ℕ) (hw : s.watcher key = none) :
    Grown s (s.watch key ptr) key ⟨s.nextListener, ptr⟩ := by
  let s' : EventManager := { s with
    lists := update s.lists s.nextList [some ⟨s.nextListener, ptr⟩]
    watcher := update s.watcher key (some s.nextList)
    nextList := s.nextList + 1
    nextListener := s.nextListener + 1
    log := s.log ++ [.added key ⟨s.nextListener, ptr⟩] }
  have hwatch : s.watch key ptr = s' := by
    simp only [EventManager.watch, hw, s']
  rw [hwatch]
  have hwatcher : ∀ k p, s'.watcher k = some p → s.watcher k = some p ∨ k = key ∧ p = s.nextList := by
    intro k p hk
    by_cases hkey : k = key
    · simp only [s', hkey, update_self] at hk
      exact .inr ⟨hkey, (Option.some.inj hk).symm⟩
    · simp only [s', update_of_ne hkey] at hk
      exact .inl hk
  have hkey : s'.listening key = s.listening key ++ [⟨s.nextListener, ptr⟩] := by
    rw [listening_of_none hw]
    simp only [EventManager.listening, s', update_self]
    rfl
  have hother : ∀ k, k ≠ key → s'.listening k = s.listening k := by
    intro k hk
    simp only [EventManager.listening, s', update_of_ne hk]
    cases hk' : s.watcher k with
    | none => rfl
    | some p =>
      simp only [update_of_ne (Nat.ne_of_lt (h.below k p hk'))]
  exact
    { listening := listening_update hkey hother
      watcher := hwatcher
      lists := fun p hp _ => update_of_ne (Nat.ne_of_lt hp) _ _
      nextList := le_succ _
      below := by
        intro k p hk
        rcases hwatcher k p hk with hold | ⟨_, rfl⟩
        · exact (h.below k p hold).trans (lt_succ_self _)
        · exact lt_succ_self _
      nextListener := rfl
      calls := rfl
      ticks := rfl
      queues := rfl
      list := rfl }

theorem Registry.grown (h : Registry s) (key : EventName) (ptr : ℕ) :
    Grown s (s.watch key ptr) key ⟨s.nextListener, ptr⟩ := by
  cases hw : s.watcher key with
  | some p => exact h.grown_old ptr hw
  | none => exact h.grown_new ptr hw

namespace Grown
variable {key : EventName} {cb : Listener}

theorem mem (hg : Grown s s' key cb) (k : EventName) (cb' : Listener) :
    cb' ∈ s'.listening k ↔ cb' ∈ s.listening k ∨ k = key ∧ cb' = cb := by
  rw [hg.listening]
  by_cases hk : k = key
  · rw [hk, update_self]
    simp
  · rw [update_of_ne hk]
    simp [hk]

theorem registry (hg : Grown s s' key cb) (h : Registry s) (hcb : cb.id = s.nextListener) : Registry s' := by
  have hfresh : ∀ k, cb ∉ s.listening k := fun k hk => absurd (h.numbered k cb hk) (by omega)
  refine ⟨hg.below, ?_, ?_, ?_, ?_⟩
  · intro k k' p hk hk'
    rcases hg.watcher k p hk with hold | ⟨rfl, hp⟩
    · rcases hg.watcher k' p hk' with hold' | ⟨rfl, hp'⟩
      · exact h.owned k k' p hold hold'
      · have hlt := h.below k p hold
        omega
    · rcases hg.watcher k' p hk' with hold' | ⟨rfl, _⟩
      · have hlt := h.below k' p hold'
        omega
      · rfl
  · intro k cb' hcb'
    rw [hg.nextListener]
    rcases (hg.mem k cb').mp hcb' with hold | ⟨_, rfl⟩
    · exact (h.numbered k cb' hold).trans (lt_succ_self _)
    · omega
  · intro k
    rw [hg.listening]
    by_cases hk : k = key
    · rw [hk, update_self]
      exact (h.once key).append (nodup_singleton _) (disjoint_singleton.mpr (hfresh key))
    · rw [update_of_ne hk]
      exact h.once k
  · intro k k' cb' hk hk'
    rcases (hg.mem k cb').mp hk with hold | ⟨rfl, rfl⟩
    · rcases (hg.mem k' cb').mp hk' with hold' | ⟨_, rfl⟩
      · exact h.one k k' cb' hold hold'
      · exact absurd hold (hfresh k)
    · rcases (hg.mem k' cb').mp hk' with hold' | ⟨rfl, _⟩
      · exact absurd hold' (hfresh k')
      · rfl

theorem covered (hg : Grown s s' key cb) (hcb : cb.id = s.nextListener) (h : Covered s c d) (hkey : c.key ≠ key) :
    Covered s' c d := by
  have hlists : s'.lists c.list = s.lists c.list := hg.lists c.list h.old fun hk => hkey (h.owner key hk).symm
  have hold : ∀ cb', cb' ∈ d.called ∨ cb' ∈ d.due → cb' ≠ cb := by
    rintro cb' hcb' rfl
    have hlt := h.issued cb' hcb'
    omega
  have hmem : ∀ k cb', cb' ∈ d.called ∨ cb' ∈ d.due → (cb' ∈ s'.listening k ↔ cb' ∈ s.listening k) := by
    intro k cb' hcb'
    rw [hg.mem]
    exact or_iff_left fun hnew => hold cb' hcb' hnew.2
  have hahead : ∀ cb', cb' ∈ d.called ∨ cb' ∈ d.due → (cb' ∈ s'.ahead c ↔ cb' ∈ s.ahead c) := by
    intro cb' hcb'
    simp only [ahead, hlists, mem_append]
    refine or_congr Iff.rfl ?_
    split
    · exact Iff.rfl
    · exact hmem .all cb' hcb'
  refine ⟨h.event, h.named, ?_, ?_, h.old.trans_le hg.nextList, ?_, ?_, ?_, ?_, ?_⟩
  · rw [hlists]
    exact h.length
  · intro k hk
    rcases hg.watcher k c.list hk with hk | ⟨_, hp⟩
    · exact h.owner k hk
    · have hlt := h.old
      omega
  · rw [hlists, hg.listening, update_of_ne hkey]
    exact h.same
  · rw [hlists]
    exact h.kept
  · intro cb' hcb' hin
    exact h.fresh cb' hcb' ((hahead cb' (.inl hcb')).mp hin)
  · intro cb' hcb'
    rw [hmem _ cb' (.inr hcb'), hmem _ cb' (.inr hcb'), hahead cb' (.inr hcb')]
    exact h.due cb' hcb'
  · intro cb' hcb'
    rw [hg.nextListener]
    exact (h.issued cb' hcb').trans (lt_succ_self _)

end Grown

theorem watch_log (key : EventName) (ptr : ℕ) :
    (s.watch key ptr).log = s.log ++ [.added key ⟨s.nextListener, ptr⟩] := by
  unfold EventManager.watch
  cases s.watcher key with
  | none => rfl
  | some p => rfl

theorem pending_congr (hticks : s'.ticks = s.ticks) (hqueues : s'.queues = s.queues) (hlist : s'.list = s.list) :
    s'.pending = s.pending := by
  simp only [EventManager.pending, reached, hticks, hqueues, hlist]

theorem Inv.watch (h : s.Inv) {key : EventName} {ptr : ℕ} (hcareful : ∀ c ∈ s.calls, c.key ≠ key) :
    (s.watch key ptr).Inv := by
  obtain ⟨L, hlog, hs⟩ := h
  have hg := hs.registry.grown key ptr
  have hpending := pending_congr hg.ticks hg.queues hg.list
  refine ⟨{ L with registered := update L.registered key (L.registered key ++ [⟨s.nextListener, ptr⟩]) },
    ?_, hg.registry hs.registry rfl, ?_, hpending.trans hs.pending, ?_, ?_, ?_, hs.handed⟩
  · rw [watch_log]
    exact readAll_snoc hlog hs.handed _
  · rw [hg.listening, hs.listening]
  · rw [hg.calls]
    have hboth := (forall₂_and_left _ _).mpr ⟨hcareful, hs.deliveries⟩
    exact hboth.imp fun c d ⟨hkey, hc⟩ => hg.covered rfl hc hkey
  · rw [hpending]
    exact hs.named
  · rw [hg.ticks, hg.queues, hg.list]
    exact hs.ticks

theorem Covered.shrunk {cb : Listener} (h : Covered s c d) (hmem : ∀ k x, x ∈ s'.listening k ↔ x ∈ s.listening k ∧ x ≠ cb)
    (hdrop : ∀ j x, x ∈ live ((s'.lists c.list).drop j) ↔ x ∈ live ((s.lists c.list).drop j) ∧ x ≠ cb)
    (hlength : (s'.lists c.list).length = (s.lists c.list).length)
    (htake : (s'.lists c.list).take c.i = (s.lists c.list).take c.i)
    (hsame : live (s'.lists c.list) = s'.listening c.key) (hwatcher : s'.watcher = s.watcher)
    (hnext : s'.nextList = s.nextList) (hid : s'.nextListener = s.nextListener) : Covered s' c d := by
  have hahead : ∀ x, x ∈ s'.ahead c ↔ x ∈ s.ahead c ∧ x ≠ cb := by
    intro x
    rw [ahead, ahead, mem_append, mem_append, hdrop, or_and_right]
    refine or_congr Iff.rfl ?_
    split
    · exact ⟨fun hx => absurd hx not_mem_nil, fun hx => hx.1⟩
    · exact hmem .all x
  refine ⟨h.event, h.named, h.length.trans hlength.symm, ?_, ?_, hsame, ?_, ?_, ?_, ?_⟩
  · rw [hwatcher]
    exact h.owner
  · rw [hnext]
    exact h.old
  · rw [htake]
    exact h.kept
  · exact fun x hx hin => h.fresh x hx ((hahead x).mp hin).1
  · intro x hx
    rcases h.due x hx with hcalled | ⟨hgone, hgone'⟩ | hin
    · exact .inl hcalled
    · exact .inr (.inl ⟨fun hx => hgone ((hmem _ x).mp hx).1, fun hx => hgone' ((hmem _ x).mp hx).1⟩)
    · by_cases hxcb : x = cb
      · exact .inr (.inl ⟨fun hx => ((hmem _ x).mp hx).2 hxcb, fun hx => ((hmem _ x).mp hx).2 hxcb⟩)
      · exact .inr (.inr ((hahead x).mpr ⟨hin, hxcb⟩))
  · rw [hid]
    exact h.issued

theorem Inv.unwatch_nobody (h : s.Inv) {key : EventName} {ptr : ℕ}
    (hfind : (s.listening key).find? (fun cb => cb.ptr = ptr) = none) : (s.unwatch key ptr).Inv := by
  obtain ⟨L, hlog, hs⟩ := h
  have hread : Ledger.readAll (s.log ++ [.removed key ptr]) = some { L with
      registered := update s.listening key ((s.listening key).eraseP fun cb => cb.ptr = ptr) } := by
    rw [hs.listening]
    exact readAll_snoc hlog hs.handed _
  have hsame : s.unwatch key ptr = s.note (.removed key ptr) := by
    unfold EventManager.unwatch
    cases hw : s.watcher key with
    | none => simp only [EventManager.note, hw]
    | some p =>
      rw [listening_of_some hw] at hfind
      simp only [EventManager.note, hw, clear_absent hfind, update_eq_self]
  have herase : (s.listening key).eraseP (fun cb => cb.ptr = ptr) = s.listening key :=
    eraseP_of_forall_not fun cb hcb => List.find?_eq_none.mp hfind cb hcb
  rw [herase, update_eq_self] at hread
  rw [hsame]
  have hn := hs.note (.removed key ptr)
  exact ⟨_, hread, hn.registry, rfl, hn.pending, hn.deliveries, hn.named, hn.ticks, hn.handed⟩

theorem Inv.unwatch (h : s.Inv) {key : EventName} {ptr : ℕ}
    (hcareful : ∀ cb ∈ (s.listening key).find? (fun cb => cb.ptr = ptr), ∀ c ∈ s.calls, s.Removable key cb c) :
    (s.unwatch key ptr).Inv := by
  cases hfind : (s.listening key).find? (fun cb => cb.ptr = ptr) with
  | none => exact h.unwatch_nobody hfind
  | some cb =>
    obtain ⟨L, hlog, hs⟩ := h
    have hr := hs.registry
    have hread : Ledger.readAll (s.log ++ [.removed key ptr]) = some { L with
        registered := update s.listening key ((s.listening key).eraseP fun cb => cb.ptr = ptr) } := by
      rw [hs.listening]
      exact readAll_snoc hlog hs.handed _
    have hcb : cb ∈ s.listening key := List.mem_of_find?_eq_some hfind
    cases hw : s.watcher key with
    | none =>
      rw [listening_of_none hw] at hcb
      exact absurd hcb not_mem_nil
    | some p =>
      have hlive := listening_of_some hw
      rw [hlive] at hfind
      have hnodup := hr.once key
      rw [hlive] at hnodup
      let s' : EventManager := { s with
        lists := update s.lists p (clear ptr (s.lists p))
        log := s.log ++ [.removed key ptr] }
      have hunwatch : s.unwatch key ptr = s' := by
        simp only [EventManager.unwatch, EventManager.note, hw, s']
      have hp : s'.lists p = clear ptr (s.lists p) := update_self ..
      have hother : ∀ p', p' ≠ p → s'.lists p' = s.lists p' := fun p' hne => update_of_ne hne _ _
      have hlistening : s'.listening =
          update s.listening key ((s.listening key).eraseP fun cb => cb.ptr = ptr) := by
        refine listening_update ?_ fun k hk => ?_
        · rw [@listening_of_some s' key p hw, hp, live_clear, hlive]
        · cases hk' : s.watcher k with
          | none => rw [listening_of_none hk', @listening_of_none s' k hk']
          | some p' =>
            rw [listening_of_some hk', @listening_of_some s' k p' hk',
              hother p' fun heq => hk (hr.owned k key p' hk' (heq ▸ hw))]
      have hmem : ∀ k x, x ∈ s'.listening k ↔ x ∈ s.listening k ∧ x ≠ cb := by
        intro k x
        by_cases hk : k = key
        · rw [hk, @listening_of_some s' key p hw, hp, hlive]
          exact mem_drop_clear hnodup hfind 0 x
        · rw [hlistening, update_of_ne hk]
          refine (and_iff_left_of_imp fun hx heq => ?_).symm
          exact hk (hr.one k key cb (heq ▸ hx) hcb)
      have hdeliveries : List.Forall₂ (Covered s') s.calls L.deliveries := by
        have hboth := (forall₂_and_left _ _).mpr ⟨hcareful cb (hlive ▸ hfind), hs.deliveries⟩
        refine hboth.imp fun c d ⟨hremovable, hc⟩ => ?_
        by_cases hkey : c.key = key
        · obtain ⟨hlist, hkept⟩ := hremovable hkey
          obtain rfl : p = c.list := some_unique hw hlist
          rw [hc.kept] at hkept
          refine hc.shrunk hmem (fun j x => ?_) ?_ ?_ ?_ rfl rfl rfl
          · rw [hp]
            exact mem_drop_clear hnodup hfind j x
          · rw [hp]
            exact length_clear _ _
          · rw [hp]
            exact take_clear hfind hkept
          · rw [hkey]
            exact (@listening_of_some s' key c.list hw).symm
        · have hlists := hother c.list fun heq => hkey (hc.owner key (heq ▸ hw)).symm
          refine hc.shrunk hmem (fun j x => ?_) ?_ ?_ ?_ rfl rfl rfl
          · rw [hlists]
            refine (and_iff_left_of_imp fun hx heq => ?_).symm
            have hx' := ((drop_sublist j _).filterMap id).subset hx
            exact hkey (hr.one c.key key cb (hc.same ▸ heq ▸ hx') hcb)
          · rw [hlists]
          · rw [hlists]
          · rw [hlists, hlistening, update_of_ne hkey]
            exact hc.same
      rw [hunwatch]
      refine ⟨_, hread, ⟨hr.below, hr.owned, ?_, ?_, ?_⟩, hlistening, hs.pending, hdeliveries, hs.named, hs.ticks, hs.handed⟩
      · exact fun k x hx => hr.numbered k x ((hmem k x).mp hx).1
      · intro k
        rw [hlistening]
        by_cases hk : k = key
        · rw [hk, update_self]
          exact (hr.once key).sublist (eraseP_sublist ..)
        · rw [update_of_ne hk]
          exact hr.once k
      · exact fun k k' x hx hx' => hr.one k k' x ((hmem k x).mp hx).1 ((hmem k' x).mp hx').1

end

end EventManager

/-! ## Runs -/

theorem eventManagerStep_inv {s s' : EventManager} {a : EventManagerAct} (h : s.Inv) (hc : CarefulEvents s a)
    (hstep : eventManagerStep s a = .ok s') : s'.Inv := by
  cases a with
  | dispatch m =>
    obtain rfl := Except.ok.inj hstep
    split
    · exact h.dispatch hc
    · exact h
  | dispatchImmediately m =>
    obtain rfl := Except.ok.inj hstep
    split
    · obtain ⟨L, hlog, hs⟩ := h
      exact hs.call (.inl hlog) hc
    · exact h
  | addListener key ptr =>
    obtain rfl := Except.ok.inj hstep
    split
    · exact h.watch hc
    · exact h
  | removeListener key ptr =>
    obtain rfl := Except.ok.inj hstep
    split
    · exact h.unwatch hc
    · exact h
  | tick =>
    obtain rfl := Except.ok.inj hstep
    split
    · exact h.tick hc
    · exact h
  | go =>
    obtain rfl := Except.ok.inj hstep
    unfold EventManager.go
    split
    · exact h
    · next c rest hf =>
      split
      · exact h
      · next hr => exact h.callListRound hf (Bool.eq_false_iff.mpr hr)
    · next list i rest hf => exact h.tickRound hf
  | ret =>
    obtain rfl := Except.ok.inj hstep
    exact h.ret

def selfRemoval : List EventManagerAct :=
  [.addListener (.named 1) 10, .addListener (.named 1) 20, .addListener .all 30, .dispatch ⟨.named 1, 0⟩, .tick, .go, .go,
    .dispatch ⟨.named 2, 0⟩, .removeListener (.named 1) 10, .ret, .go, .ret, .go, .go, .ret, .go, .go, .go, .ret, .go,
    .go]

end CServer.Fight
