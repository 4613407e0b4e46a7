import CServer.Lib.Memory

/-! # `world/notify.c`: what has changed for a player

What changes of a player is noted and sent once in a while, all of it in one message. `notification_add` notes one more
entry. `notification_set` notes an entry under a type and a key, and replaces what is noted under them already; the entry
is found in a map under the number that has the key in its high and the type in its low 32 bits.

The entries of a player are a list here, and an entry is its place in it. Notifications of player 0 are for everybody.
-/
namespace CServer.World
open CServer.Lib Function List
open Option hiding mem_map filter filter_map map

variable {V : Type}

/-! ## The code -/

abbrev Word := Fin (2 ^ 32)

structure Notify (V : Type) where
  type : Word
  rkey : ℕ
  value : Option V

structure PlayerNotify (V : Type) where
  playerid : ℕ
  m : ℕ → Option ℕ
  l : List (Notify V)

/-- `heap` holds the `PlayerNotify` that have been allocated, all of them below `fresh`. -/
structure NotifyState (V : Type) where
  heap : ℕ → PlayerNotify V
  fresh : ℕ
  hash : ℕ → Option ℕ
  list : List ℕ

namespace NotifyState

variable (s : NotifyState V)

def setHeap (a : ℕ) (notify : PlayerNotify V) : NotifyState V :=
  { s with heap := update s.heap a notify }

variable (playerid : ℕ)

/-- The part of `get_player_notify` for a player without notifications. -/
def newPlayerNotify : NotifyState V where
  heap := update s.heap s.fresh ⟨playerid, fun _ => none, []⟩
  fresh := s.fresh + 1
  hash := update s.hash playerid (some s.fresh)
  list := s.fresh :: s.list

def getPlayerNotify : ℕ × NotifyState V :=
  match s.hash playerid with
  | some a => (a, s)
  | none => (s.fresh, s.newPlayerNotify playerid)

/-- `notification_add_r`; `rkey` is set by `notification_set` afterwards. -/
def notificationAddR (type : Word) (rkey : ℕ) (value : Option V) : ℕ × NotifyState V :=
  match s.getPlayerNotify playerid with
  | (a, s) => ((s.heap a).l.length, s.setHeap a { s.heap a with l := (s.heap a).l ++ [⟨type, rkey, value⟩] })

def notificationAdd (type : Word) (value : Option V) : NotifyState V :=
  (s.notificationAddR playerid type 0 value).2

def rkeyOf (type key : Word) : ℕ := (key : ℕ) <<< 32 ||| type

def notificationSet (type key : Word) (value : Option V) : NotifyState V :=
  match s.getPlayerNotify playerid with
  | (a, s) =>
    match (s.heap a).m (rkeyOf type key) with
    | some i => s.setHeap a { s.heap a with l := (s.heap a).l.modify i fun msg => { msg with value := value } }
    | none =>
      match s.notificationAddR playerid type (rkeyOf type key) value with
      | (i, s) => s.setHeap a { s.heap a with m := update (s.heap a).m (rkeyOf type key) (some i) }

/-- The entries of a message: the type, and the value unless it is null. -/
def message (notify : PlayerNotify V) : ℕ × List (Word × Option V) :=
  (notify.playerid, notify.l.map fun n => (n.type, n.value))

def cleanLoop (heap : ℕ → PlayerNotify V) (hash : ℕ → Option ℕ) : List ℕ → (ℕ → Option ℕ) × List (ℕ × List (Word × Option V))
  | [] => (hash, [])
  | a :: list =>
    let r := cleanLoop heap (update hash (heap a).playerid none) list
    (r.1, message (heap a) :: r.2)

def notificationClean : NotifyState V × List (ℕ × List (Word × Option V)) :=
  let r := cleanLoop s.heap s.hash s.list
  ({ s with hash := r.1, list := [] }, r.2)

def empty : NotifyState V := ⟨fun _ => ⟨0, fun _ => none, []⟩, 0, fun _ => none, []⟩

end NotifyState

/-! ## What should be sent -/

inductive NotifyCall (V : Type)
  | add (type : Word) (value : Option V)
  | set (type key : Word) (value : Option V)

def NotifyState.call (s : NotifyState V) (c : ℕ × NotifyCall V) : NotifyState V :=
  match c.2 with
  | .add type value => s.notificationAdd c.1 type value
  | .set type key value => s.notificationSet c.1 type key value

def callsFor (playerid : ℕ) (calls : List (ℕ × NotifyCall V)) : List (NotifyCall V) :=
  (calls.filter fun c => c.1 = playerid).map Prod.snd

inductive NotifySlot
  | added (i : ℕ)
  | keyed (type key : Word)
  deriving DecidableEq

def NotifyCall.slot (i : ℕ) : NotifyCall V → NotifySlot
  | .add _ _ => .added i
  | .set type key _ => .keyed type key

def NotifyCall.entry : NotifyCall V → Word × Option V
  | .add type value => (type, value)
  | .set type _ value => (type, value)

def slots (calls : List (NotifyCall V)) : List NotifySlot := (calls.mapIdx fun i c => c.slot i).eraseDups

def lastFor (calls : List (NotifyCall V)) (slot : NotifySlot) : Option (NotifyCall V) :=
  ((calls.zipIdx.filter fun p => p.1.slot p.2 = slot).getLast?).map Prod.fst

def expected (calls : List (NotifyCall V)) : List (Word × Option V) :=
  (slots calls).filterMap fun slot => (lastFor calls slot).map NotifyCall.entry

theorem rkeyOf_eq (type key : Word) : NotifyState.rkeyOf type key = key * 2 ^ 32 + type := by
  rw [NotifyState.rkeyOf, ← Nat.shiftLeft_add_eq_or_of_lt type.isLt, Nat.shiftLeft_eq]

theorem rkeyOf_inj {type key type' key' : Word} :
    NotifyState.rkeyOf type key = NotifyState.rkeyOf type' key' ↔ type = type' ∧ key = key' := by
  have ht := type.isLt
  have ht' := type'.isLt
  rw [rkeyOf_eq, rkeyOf_eq, Fin.ext_iff, Fin.ext_iff]
  omega

/-! ## Slots -/

variable {calls : List (NotifyCall V)} {c : NotifyCall V} {slot : NotifySlot}

theorem eraseDups_snoc {α : Type} [DecidableEq α] (xs : List α) (x : α) :
    (xs ++ [x]).eraseDups = xs.eraseDups ++ if x ∈ xs then [] else [x] := by
  rw [eraseDups_append]
  congr 1
  split
  case isTrue h => simp [List.removeAll, h]
  case isFalse h => simp [List.removeAll, h, eraseDups_cons]

theorem slots_snoc : slots (calls ++ [c]) =
    slots calls ++ if c.slot calls.length ∈ slots calls then [] else [c.slot calls.length] := by
  unfold slots
  rw [mapIdx_append, mapIdx_cons, mapIdx_nil, zero_add, eraseDups_snoc]
  simp only [mem_eraseDups]

theorem slots_nodup (calls : List (NotifyCall V)) : (slots calls).Nodup := by
  induction calls using List.reverseRecOn with
  | nil => exact nodup_nil
  | append_singleton calls c ih =>
    rw [slots_snoc]
    split
    · rwa [append_nil]
    case isFalse h =>
      exact nodup_append.mpr ⟨ih, nodup_singleton _, fun a ha b hb => by
        rw [mem_singleton.mp hb]
        exact fun heq => h (heq ▸ ha)⟩

theorem lastFor_snoc : lastFor (calls ++ [c]) slot = if c.slot calls.length = slot then some c else lastFor calls slot := by
  unfold lastFor
  rw [zipIdx_append, filter_append]
  by_cases h : c.slot calls.length = slot
  · simp [h]
  · simp [h]

theorem lastFor_of_mem (h : slot ∈ slots calls) : ∃ c, lastFor calls slot = some c := by
  induction calls using List.reverseRecOn with
  | nil => cases h
  | append_singleton calls c ih =>
    rw [lastFor_snoc]
    split
    · exact ⟨c, rfl⟩
    case isFalse hne =>
      rw [slots_snoc] at h
      split at h
      · exact ih (by rwa [append_nil] at h)
      · obtain h | h := mem_append.mp h
        · exact ih h
        · exact absurd (mem_singleton.mp h).symm hne

theorem added_notMem {i : ℕ} (hi : calls.length ≤ i) : .added i ∉ slots calls := by
  induction calls using List.reverseRecOn with
  | nil => exact not_mem_nil
  | append_singleton calls c ih =>
    rw [length_append, length_singleton] at hi
    have hne : c.slot calls.length ≠ .added i := by
      cases c with
      | add type value =>
        intro heq
        have := NotifySlot.added.inj heq
        omega
      | set type key value => exact fun heq => nomatch heq
    rw [slots_snoc]
    split
    · rw [append_nil]
      exact ih (by omega)
    · rw [mem_append, mem_singleton]
      exact not_or.mpr ⟨ih (by omega), hne.symm⟩

theorem lastFor_keyed {type key : Word} (h : lastFor calls (.keyed type key) = some c) : c.entry.1 = type := by
  induction calls using List.reverseRecOn with
  | nil => cases h
  | append_singleton calls d ih =>
    rw [lastFor_snoc] at h
    split at h
    case isTrue hslot =>
      obtain rfl := some.inj h
      cases d with
      | add => cases hslot
      | set => exact (NotifySlot.keyed.inj hslot).1
    case isFalse => exact ih h

/-! ## The entries of a player -/

/-- The entries are what the calls say, and the map finds those that were set. -/
structure Holds (calls : List (NotifyCall V)) (notify : PlayerNotify V) : Prop where
  entries : notify.l.map (fun n => some (n.type, n.value)) = (slots calls).map fun slot => (lastFor calls slot).map NotifyCall.entry
  found : ∀ type key, notify.m (NotifyState.rkeyOf type key) =
    if .keyed type key ∈ slots calls then some ((slots calls).idxOf (.keyed type key)) else none

theorem holds_nil (playerid : ℕ) : Holds ([] : List (NotifyCall V)) ⟨playerid, fun _ => none, []⟩ :=
  ⟨rfl, fun _ _ => (if_neg not_mem_nil).symm⟩

theorem lastFor_others (hnew : c.slot calls.length ∉ slots calls) :
    (slots calls).map (fun slot => (lastFor (calls ++ [c]) slot).map NotifyCall.entry) =
      (slots calls).map fun slot => (lastFor calls slot).map NotifyCall.entry := by
  refine map_congr_left fun slot hslot => ?_
  rw [lastFor_snoc, if_neg fun heq => hnew (by rwa [heq])]

theorem Holds.snoc {notify : PlayerNotify V} (h : Holds calls notify) (hnew : c.slot calls.length ∉ slots calls)
    {type : Word} {rkey : ℕ} {value : Option V} (hc : c.entry = (type, value)) :
    (notify.l ++ [(⟨type, rkey, value⟩ : Notify V)]).map (fun n => some (n.type, n.value)) =
      (slots (calls ++ [c])).map fun slot => (lastFor (calls ++ [c]) slot).map NotifyCall.entry := by
  rw [slots_snoc, if_neg hnew, map_append, map_append, lastFor_others hnew, h.entries]
  congr 1
  rw [map_singleton, map_singleton, lastFor_snoc, if_pos rfl, map_some, hc]

theorem Holds.add {notify : PlayerNotify V} (h : Holds calls notify) (type : Word) (value : Option V) :
    Holds (calls ++ [.add type value]) { notify with l := notify.l ++ [⟨type, 0, value⟩] } := by
  have hnew : (NotifyCall.add type value).slot calls.length ∉ slots calls := added_notMem (le_refl _)
  refine ⟨h.snoc hnew rfl, fun t key => ?_⟩
  have hne : ∀ i, NotifySlot.keyed t key ≠ .added i := fun i heq => nomatch heq
  rw [slots_snoc, if_neg hnew, h.found]
  by_cases hmem : .keyed t key ∈ slots calls
  · rw [if_pos hmem, if_pos (mem_append_left _ hmem), idxOf_append_of_mem hmem]
  · rw [if_neg hmem, if_neg]
    rw [mem_append, mem_singleton]
    exact not_or.mpr ⟨hmem, hne _⟩

theorem Holds.length {notify : PlayerNotify V} (h : Holds calls notify) : notify.l.length = (slots calls).length := by
  simpa using congrArg List.length h.entries

theorem Holds.setNew {notify : PlayerNotify V} (h : Holds calls notify) (type key : Word) (value : Option V)
    (hnew : .keyed type key ∉ slots calls) : Holds (calls ++ [.set type key value]) { notify with
      l := notify.l ++ [⟨type, NotifyState.rkeyOf type key, value⟩]
      m := update notify.m (NotifyState.rkeyOf type key) (some notify.l.length) } := by
  have hslot : (NotifyCall.set type key value).slot calls.length ∉ slots calls := hnew
  refine ⟨h.snoc hslot rfl, fun t k => ?_⟩
  rw [slots_snoc, if_neg hslot, show (NotifyCall.set type key value).slot calls.length = .keyed type key from rfl]
  by_cases hsame : type = t ∧ key = k
  · obtain ⟨rfl, rfl⟩ := hsame
    rw [if_pos (mem_append_right _ mem_cons_self), idxOf_append_of_notMem hnew]
    simp only [update_self, idxOf_cons_self, add_zero, h.length]
  · have hne : NotifyState.rkeyOf t k ≠ NotifyState.rkeyOf type key := fun heq =>
      hsame ((rkeyOf_inj.mp heq).imp Eq.symm Eq.symm)
    have hother : NotifySlot.keyed t k ≠ .keyed type key := fun heq =>
      hsame ⟨(NotifySlot.keyed.inj heq).1.symm, (NotifySlot.keyed.inj heq).2.symm⟩
    simp only [update_of_ne hne, h.found]
    by_cases hmem : .keyed t k ∈ slots calls
    · rw [if_pos hmem, if_pos (mem_append_left _ hmem), idxOf_append_of_mem hmem]
    · rw [if_neg hmem, if_neg]
      rw [mem_append, mem_singleton]
      exact not_or.mpr ⟨hmem, hother⟩

theorem Holds.setAgain {notify : PlayerNotify V} (h : Holds calls notify) (type key : Word) (value : Option V)
    (hold : .keyed type key ∈ slots calls) : Holds (calls ++ [.set type key value]) { notify with
      l := notify.l.modify ((slots calls).idxOf (.keyed type key)) fun msg => { msg with value := value } } := by
  have hslot : (NotifyCall.set type key value).slot calls.length ∈ slots calls := hold
  have hslots : slots (calls ++ [.set type key value]) = slots calls := by
    rw [slots_snoc, if_pos hslot, append_nil]
  refine ⟨?_, fun t k => by rw [hslots, h.found]⟩
  have hentry : ∀ j : ℕ, notify.l[j]?.map (fun n => some (n.type, n.value)) =
      (slots calls)[j]?.map fun slot => (lastFor calls slot).map NotifyCall.entry := by
    intro j
    rw [← List.getElem?_map, ← List.getElem?_map, h.entries]
  rw [hslots]
  refine ext_getElem? fun j => ?_
  rw [List.getElem?_map, List.getElem?_map, List.getElem?_modify]
  have hj := hentry j
  by_cases hidx : (slots calls).idxOf (.keyed type key) = j
  · have hat : (slots calls)[j]? = some (.keyed type key) := by
      rw [← hidx]
      exact List.getElem?_idxOf hold
    obtain ⟨c, hc⟩ := lastFor_of_mem hold
    rw [hat, map_some, hc, map_some] at hj
    obtain ⟨n, hn, hline⟩ := map_eq_some_iff.mp hj
    have htype : n.type = type := (congrArg Prod.fst (some.inj hline)).trans (lastFor_keyed hc)
    have hself : (NotifyCall.set type key value).slot calls.length = .keyed type key := rfl
    rw [hat, hn, map_some, lastFor_snoc, if_pos hself]
    simp only [if_pos hidx, Option.map_eq_map, map_some, htype, NotifyCall.entry]
  · simp only [if_neg hidx, id_map']
    rw [hj]
    cases hat : (slots calls)[j]? with
    | none => rfl
    | some slot =>
      have hne : (NotifyCall.set type key value).slot calls.length ≠ slot := by
        intro heq
        refine hidx ?_
        have hlt := (List.getElem?_eq_some_iff.mp hat).1
        rw [show NotifySlot.keyed type key = slot from heq, ← (List.getElem?_eq_some_iff.mp hat).2]
        exact (slots_nodup calls).idxOf_getElem j hlt
      rw [map_some, map_some, lastFor_snoc, if_neg hne]

/-! ## All players -/

variable {s : NotifyState V} {all : List (ℕ × NotifyCall V)} {playerid : ℕ}

theorem setHeap_self {a : ℕ} {notify : PlayerNotify V} : (s.setHeap a notify).heap a = notify := update_self ..

theorem setHeap_ne {a b : ℕ} {notify : PlayerNotify V} (h : b ≠ a) : (s.setHeap a notify).heap b = s.heap b :=
  update_of_ne h ..

theorem setHeap_setHeap {a : ℕ} {notify notify' : PlayerNotify V} :
    (s.setHeap a notify).setHeap a notify' = s.setHeap a notify' := by
  rw [NotifyState.setHeap, NotifyState.setHeap, NotifyState.setHeap, update_idem]

theorem newPlayerNotify_hash : (s.newPlayerNotify playerid).hash playerid = some s.fresh := update_self ..

theorem newPlayerNotify_hash_ne {q : ℕ} (h : q ≠ playerid) : (s.newPlayerNotify playerid).hash q = s.hash q :=
  update_of_ne h ..

structure Pending (all : List (ℕ × NotifyCall V)) (s : NotifyState V) : Prop where
  below : ∀ a ∈ s.list, a < s.fresh
  nodup : s.list.Nodup
  hash : ∀ q a, s.hash q = some a ↔ a ∈ s.list ∧ (s.heap a).playerid = q
  called : ∀ q, callsFor q all ≠ [] ↔ ∃ a ∈ s.list, (s.heap a).playerid = q
  holds : ∀ a ∈ s.list, Holds (callsFor (s.heap a).playerid all) (s.heap a)

theorem pending_empty : Pending [] (.empty : NotifyState V) where
  below := fun _ h => absurd h not_mem_nil
  nodup := nodup_nil
  hash := fun _ _ => ⟨(nomatch ·), fun h => absurd h.1 not_mem_nil⟩
  called := fun _ => ⟨fun h => absurd rfl h, fun ⟨_, h, _⟩ => absurd h not_mem_nil⟩
  holds := fun _ h => absurd h not_mem_nil

/-- The same while a player who may not have been called yet has his `PlayerNotify` at `a`. -/
structure Ready (all : List (ℕ × NotifyCall V)) (playerid a : ℕ) (s : NotifyState V) : Prop where
  below : ∀ b ∈ s.list, b < s.fresh
  nodup : s.list.Nodup
  hash : ∀ q b, s.hash q = some b ↔ b ∈ s.list ∧ (s.heap b).playerid = q
  called : ∀ q, q ≠ playerid → (callsFor q all ≠ [] ↔ ∃ b ∈ s.list, (s.heap b).playerid = q)
  holds : ∀ b ∈ s.list, Holds (callsFor (s.heap b).playerid all) (s.heap b)
  here : a ∈ s.list
  owner : (s.heap a).playerid = playerid

theorem Ready.get {a : ℕ} (h : Ready all playerid a s) : s.getPlayerNotify playerid = (a, s) := by
  rw [NotifyState.getPlayerNotify, (h.hash playerid a).mpr ⟨h.here, h.owner⟩]

theorem Pending.get (h : Pending all s) (playerid : ℕ) :
    ∃ a s', s.getPlayerNotify playerid = (a, s') ∧ Ready all playerid a s' := by
  unfold NotifyState.getPlayerNotify
  cases hhash : s.hash playerid with
  | some a =>
    obtain ⟨hmem, hpid⟩ := (h.hash playerid a).mp hhash
    exact ⟨a, s, rfl, h.below, h.nodup, h.hash, fun q _ => h.called q, h.holds, hmem, hpid⟩
  | none =>
    have hnone : ¬ ∃ a ∈ s.list, (s.heap a).playerid = playerid := by
      intro ⟨a, ha⟩
      rw [(h.hash playerid a).mpr ha] at hhash
      cases hhash
    have hfresh : s.fresh ∉ s.list := fun hmem => absurd (h.below _ hmem) (lt_irrefl _)
    have hself : (s.newPlayerNotify playerid).heap s.fresh = ⟨playerid, fun _ => none, []⟩ := update_self ..
    have hold : ∀ a ∈ s.list, (s.newPlayerNotify playerid).heap a = s.heap a := by
      intro a ha
      have hne : a ≠ s.fresh := fun heq => hfresh (heq ▸ ha)
      exact update_of_ne hne _ _
    refine ⟨s.fresh, _, rfl, ?_, ?_, ?_, ?_, ?_, mem_cons_self, congrArg PlayerNotify.playerid hself⟩
    · intro a ha
      obtain rfl | ha := mem_cons.mp ha
      · exact Nat.lt_succ_self _
      · exact (h.below a ha).trans (Nat.lt_succ_self _)
    · exact nodup_cons.mpr ⟨hfresh, h.nodup⟩
    · intro q a
      rw [show (s.newPlayerNotify playerid).list = s.fresh :: s.list from rfl, mem_cons]
      by_cases hq : q = playerid
      · rw [hq, newPlayerNotify_hash]
        constructor
        · intro ha
          rw [← some.inj ha, hself]
          exact ⟨.inl rfl, rfl⟩
        · intro ⟨ha, hpid⟩
          obtain rfl | ha := ha
          · rfl
          · rw [hold a ha] at hpid
            exact absurd ⟨a, ha, hpid⟩ hnone
      · rw [newPlayerNotify_hash_ne hq, h.hash]
        constructor
        · intro ⟨ha, hpid⟩
          exact ⟨.inr ha, by rwa [hold a ha]⟩
        · intro ⟨ha, hpid⟩
          obtain rfl | ha := ha
          · rw [hself] at hpid
            exact absurd hpid.symm hq
          · exact ⟨ha, by rwa [hold a ha] at hpid⟩
    · intro q hq
      rw [h.called]
      constructor
      · intro ⟨a, ha, hpid⟩
        exact ⟨a, mem_cons_of_mem _ ha, by rwa [hold a ha]⟩
      · intro ⟨a, ha, hpid⟩
        obtain rfl | ha := mem_cons.mp ha
        · rw [hself] at hpid
          exact absurd hpid.symm hq
        · exact ⟨a, ha, by rwa [hold a ha] at hpid⟩
    · intro a ha
      obtain rfl | ha := mem_cons.mp ha
      · have hnil : callsFor playerid all = [] := by
          by_contra hne
          exact hnone ((h.called playerid).mp hne)
        rw [hself, hnil]
        exact holds_nil playerid
      · rw [hold a ha]
        exact h.holds a ha

theorem playerCalls_snoc (q : ℕ) : callsFor q (all ++ [(playerid, c)]) = callsFor q all ++ if playerid = q then [c] else [] := by
  unfold callsFor
  rw [filter_append, map_append, filter_singleton]
  congr 1
  by_cases h : playerid = q
  · simp [h]
  · simp [h]

theorem Ready.put {a : ℕ} (h : Ready all playerid a s) {notify : PlayerNotify V} (hpid : notify.playerid = playerid)
    (hnotify : Holds (callsFor playerid all ++ [c]) notify) : Pending (all ++ [(playerid, c)]) (s.setHeap a notify) := by
  have hplayer : ∀ b, ((s.setHeap a notify).heap b).playerid = (s.heap b).playerid := by
    intro b
    by_cases hb : b = a
    · rw [hb, setHeap_self, hpid, h.owner]
    · rw [setHeap_ne hb]
  refine ⟨h.below, h.nodup, fun q b => ?_, fun q => ?_, fun b hb => ?_⟩
  · rw [hplayer]
    exact h.hash q b
  · simp only [hplayer]
    rw [playerCalls_snoc]
    by_cases hq : playerid = q
    · rw [if_pos hq]
      exact ⟨fun _ => ⟨a, h.here, h.owner.trans hq⟩, fun _ => append_ne_nil_of_right_ne_nil _ (cons_ne_nil _ _)⟩
    · rw [if_neg hq, append_nil]
      exact h.called q fun heq => hq heq.symm
  · rw [hplayer, playerCalls_snoc]
    by_cases hba : b = a
    · rw [hba, h.owner, if_pos rfl, setHeap_self]
      exact hnotify
    · have hother : playerid ≠ (s.heap b).playerid := by
        intro heq
        have hb' := (h.hash playerid b).mpr ⟨hb, heq.symm⟩
        rw [(h.hash playerid a).mpr ⟨h.here, h.owner⟩] at hb'
        exact hba (some.inj hb').symm
      rw [if_neg hother, append_nil, setHeap_ne hba]
      exact h.holds b hb

theorem notificationAdd_pending (h : Pending all s) (type : Word) (value : Option V) :
    Pending (all ++ [(playerid, .add type value)]) (s.notificationAdd playerid type value) := by
  obtain ⟨a, s', hget, hready⟩ := h.get playerid
  rw [NotifyState.notificationAdd, NotifyState.notificationAddR, hget]
  refine hready.put hready.owner ?_
  have hholds := hready.holds a hready.here
  rw [hready.owner] at hholds
  exact hholds.add type value

theorem notificationSet_pending (h : Pending all s) (type key : Word) (value : Option V) :
    Pending (all ++ [(playerid, .set type key value)]) (s.notificationSet playerid type key value) := by
  obtain ⟨a, s', hget, hready⟩ := h.get playerid
  have hholds := hready.holds a hready.here
  rw [hready.owner] at hholds
  rw [NotifyState.notificationSet, hget]
  simp only [hholds.found]
  split
  case h_1 i hi =>
    split at hi
    case isTrue hold =>
      obtain rfl := some.inj hi
      exact hready.put hready.owner (hholds.setAgain type key value hold)
    case isFalse => cases hi
  case h_2 hi =>
    split at hi
    case isTrue => cases hi
    case isFalse hnew =>
      rw [NotifyState.notificationAddR, hready.get]
      simp only [setHeap_self, setHeap_setHeap]
      exact hready.put hready.owner (hholds.setNew type key value hnew)

/-! ## Sending -/

theorem cleanLoop_messages (heap : ℕ → PlayerNotify V) (hash : ℕ → Option ℕ) (list : List ℕ) :
    (NotifyState.cleanLoop heap hash list).2 = list.map fun a => NotifyState.message (heap a) := by
  induction list generalizing hash with
  | nil => rfl
  | cons a list ih => rw [NotifyState.cleanLoop, map_cons, ih]

theorem cleanLoop_hash (heap : ℕ → PlayerNotify V) (hash : ℕ → Option ℕ) (list : List ℕ) (q : ℕ) :
    (NotifyState.cleanLoop heap hash list).1 q = if ∃ a ∈ list, (heap a).playerid = q then none else hash q := by
  induction list generalizing hash with
  | nil => simp [NotifyState.cleanLoop]
  | cons a list ih =>
    rw [NotifyState.cleanLoop, ih]
    by_cases hlater : ∃ b ∈ list, (heap b).playerid = q
    · obtain ⟨b, hb, hpid⟩ := hlater
      rw [if_pos ⟨b, hb, hpid⟩, if_pos ⟨b, mem_cons_of_mem _ hb, hpid⟩]
    · rw [if_neg hlater]
      by_cases hq : (heap a).playerid = q
      · rw [if_pos ⟨a, mem_cons_self, hq⟩, hq, update_self]
      · rw [update_of_ne (Ne.symm hq), if_neg]
        intro ⟨b, hb, hpid⟩
        obtain rfl | hb := mem_cons.mp hb
        · exact hq hpid
        · exact hlater ⟨b, hb, hpid⟩

theorem Holds.expected {notify : PlayerNotify V} (h : Holds calls notify) :
    notify.l.map (fun n => (n.type, n.value)) = expected calls := by
  have hlines := congrArg (List.filterMap id) h.entries
  rw [filterMap_map, filterMap_map] at hlines
  rw [World.expected, ← filterMap_eq_map]
  exact hlines

theorem notificationClean_sends (h : Pending all s) (q : ℕ) : (s.notificationClean.2.filter fun m => m.1 = q) =
    if callsFor q all = [] then [] else [(q, expected (callsFor q all))] := by
  rw [NotifyState.notificationClean]
  simp only [cleanLoop_messages]
  rw [filter_map]
  by_cases hq : callsFor q all = []
  · have hnone : ∀ a ∈ s.list, ¬ (s.heap a).playerid = q := fun a ha hpid => (h.called q).mpr ⟨a, ha, hpid⟩ hq
    rw [if_pos hq, map_eq_nil_iff, filter_eq_nil_iff]
    exact fun a ha hpid => hnone a ha (of_decide_eq_true hpid)
  · obtain ⟨a, ha, hpid⟩ := (h.called q).mp hq
    have hhash := (h.hash q a).mpr ⟨ha, hpid⟩
    have honly : ∀ b ∈ s.list, decide ((s.heap b).playerid = q) = decide (b = a) := by
      intro b hb
      refine decide_eq_decide.mpr ⟨fun hb' => ?_, fun heq => heq ▸ hpid⟩
      exact some_unique ((h.hash q b).mpr ⟨hb, hb'⟩) hhash
    have hfilter : s.list.filter (fun b => (s.heap b).playerid = q) = [a] := by
      rw [filter_congr honly, filter_eq, count_eq_one_of_mem h.nodup ha, replicate_one]
    have hholds := h.holds a ha
    rw [hpid] at hholds
    rw [if_neg hq]
    refine (congrArg (List.map fun b => NotifyState.message (s.heap b)) hfilter).trans ?_
    rw [map_singleton, NotifyState.message, hpid, hholds.expected]

theorem notificationClean_pending (h : Pending all s) : Pending [] s.notificationClean.1 := by
  have hnone : ∀ q, s.notificationClean.1.hash q = none := by
    intro q
    rw [NotifyState.notificationClean]
    simp only [cleanLoop_hash]
    split
    · rfl
    case isFalse hnot =>
      by_contra hsome
      obtain ⟨a, ha⟩ := ne_none_iff_exists'.mp hsome
      exact hnot ⟨a, (h.hash q a).mp ha⟩
  have hlist : s.notificationClean.1.list = [] := rfl
  refine ⟨?_, ?_, ?_, ?_, ?_⟩
  · exact fun a ha => absurd ha not_mem_nil
  · exact nodup_nil
  · intro q a
    rw [hnone]
    exact ⟨(nomatch ·), fun ha => absurd ha.1 not_mem_nil⟩
  · exact fun q => ⟨fun hne => absurd rfl hne, fun ⟨a, ha, _⟩ => absurd ha not_mem_nil⟩
  · exact fun a ha => absurd ha not_mem_nil

/-! ## Runs -/

theorem call_pending (h : Pending all s) (call : ℕ × NotifyCall V) : Pending (all ++ [call]) (s.call call) := by
  obtain ⟨playerid, c⟩ := call
  cases c with
  | add type value => exact notificationAdd_pending h type value
  | set type key value => exact notificationSet_pending h type key value

theorem calls_pending (h : Pending [] s) (all : List (ℕ × NotifyCall V)) : Pending all (all.foldl NotifyState.call s) := by
  induction all using List.reverseRecOn with
  | nil => exact h
  | append_singleton all call ih =>
    rw [foldl_append]
    exact call_pending ih call

def NotifyState.round (s : NotifyState V) (all : List (ℕ × NotifyCall V)) : NotifyState V × List (ℕ × List (Word × Option V)) :=
  (all.foldl NotifyState.call s).notificationClean

theorem rounds_pending (rounds : List (List (ℕ × NotifyCall V))) :
    Pending [] (rounds.foldl (fun s all => (s.round all).1) NotifyState.empty) := by
  induction rounds using List.reverseRecOn with
  | nil => exact pending_empty
  | append_singleton rounds all ih =>
    rw [foldl_append]
    exact notificationClean_pending (calls_pending ih all)

/-- After any rounds of calls, the calls of one more are sent as one message to each of their players, with one entry for
each call that adds and for each type and key that is set, where it occurs first and as the last call has it; and then
nothing is pending. -/
theorem notification_coalesces (rounds : List (List (ℕ × NotifyCall V))) (all : List (ℕ × NotifyCall V)) :
    let r := (rounds.foldl (fun s all => (s.round all).1) NotifyState.empty).round all
    (∀ q, (r.2.filter fun m => m.1 = q) = if callsFor q all = [] then [] else [(q, expected (callsFor q all))]) ∧
      r.1.list = [] ∧ ∀ q, r.1.hash q = none := by
  have h := calls_pending (rounds_pending rounds) all
  refine ⟨notificationClean_sends h, rfl, fun q => ?_⟩
  by_contra hsome
  obtain ⟨a, ha⟩ := ne_none_iff_exists'.mp hsome
  exact absurd (((notificationClean_pending h).hash q a).mp ha).1 not_mem_nil

/-- A value that is set again takes the place of the first one, an entry that is added does not. -/
example : expected [.add 3 (some 1), .set 0 0 (some 2), .add 3 (some 4), .set 0 0 (some 5)] =
    [(3, some 1), (0, some 5), (3, some 4)] := by decide

end CServer.World
