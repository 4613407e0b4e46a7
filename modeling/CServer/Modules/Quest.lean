import CServer.Modules.Item

/-! # `world/modules/quest.c`: the quests of a player

A player's quests are in a list and in a map by id. A quest is identified by its address `ptr`, which is
what the map holds: an address stays in the map when the quest behind it is gone, unless it is taken out.
An id is an `int` where it is passed and an `unsigned int` in the record, so a negative one is not found
under the key it was stored at.

`dataFlag` is 0x100 for a quest that has no row in the database yet. `deleted` is the history of the rows
deleted: the id the quest had and the id in the statement; `gone` the ids removed and not added again.
Notifications and logs are left out.
-/
namespace CServer.Modules
open CServer.Lib Function
open List hiding lookup

/-! ## The code -/

def questStatusInit : ℤ := 0
def questStatusFinish : ℤ := 1
def questStatusCancel : ℤ := 2
def questStatusInitWithOutSave : ℤ := 0x100

structure Quest where
  ptr : ℕ
  id : ℕ
  status : ℤ
  record1 : ℤ
  record2 : ℤ
  count : ℤ
  consumeItemSave1 : ℤ
  consumeItemSave2 : ℤ
  acceptTime : ℤ
  submitTime : ℤ
  dataFlag : ℤ
  deriving DecidableEq

structure QuestSet where
  list : List Quest
  m : ℕ → Option ℕ
  deleted : List (ℕ × ℕ)
  gone : List ℤ

def questKey (id : ℤ) : ℕ := (id % 2 ^ 64).toNat

/-- `TRY_UPDATE`: the value in the record afterwards, and whether it is another one. -/
def tryUpdate (key old : ℤ) : ℤ × Bool := if key ≥ 0 ∧ key ≠ toInt old then (key, true) else (old, false)

def tryUpdateTime (key old : ℤ) : ℤ × Bool := if key ≠ 0 then tryUpdate key old else (old, false)

/-- `quest_update_status`; `stored` is the outcome of the insert it may send. -/
def questUpdateStatus (stored : Bool) (quest : Quest) (status record1 record2 count consumeItemSave1 consumeItemSave2
    acceptTime submitTime : ℤ) : Quest :=
  let s := tryUpdate status quest.status
  let r1 := tryUpdate record1 quest.record1
  let r2 := tryUpdate record2 quest.record2
  let c := tryUpdate count quest.count
  let c1 := tryUpdate consumeItemSave1 quest.consumeItemSave1
  let c2 := tryUpdate consumeItemSave2 quest.consumeItemSave2
  let a := tryUpdateTime acceptTime quest.acceptTime
  let t := tryUpdateTime submitTime quest.submitTime
  let changed := s.2 || r1.2 || r2.2 || c.2 || c1.2 || c2.2 || a.2 || t.2
  { quest with
    status := s.1
    record1 := r1.1
    record2 := r2.1
    count := c.1
    consumeItemSave1 := c1.1
    consumeItemSave2 := c2.1
    acceptTime := a.1
    submitTime := t.1
    dataFlag := if changed ∧ quest.dataFlag = 0x100 ∧ stored = true then 0 else quest.dataFlag }

namespace QuestSet

def questLoad (rows : List Quest) : QuestSet :=
  let rows := rows.filter fun cur => decide (¬ cur.id = 0)
  ⟨rows, rows.foldl (fun m cur => update m cur.id (some cur.ptr)) fun _ => none, [], []⟩

def questGet (set : QuestSet) (id : ℤ) : Option ℕ := set.m (questKey id)

def questNext (set : QuestSet) : Option ℕ → Option Quest
  | none => set.list.head?
  | some p => (set.list.dropWhile fun q => q.ptr ≠ p).tail.head?

def questAdd (set : QuestSet) (ptr : ℕ) (id status acceptTime : ℤ) : QuestSet :=
  let unsaved := status = questStatusInitWithOutSave
  let item : Quest := ⟨ptr, toUnsigned id, if unsaved then questStatusInit else status, 0, 0, 0, 0, 0, acceptTime, 0,
    if unsaved then 0x100 else 0⟩
  { set with
    list := set.list ++ [item]
    m := update set.m item.id (some ptr)
    gone := set.gone.filter fun i => i ≠ id }

/-- `quest_remove`. `DATA_Quest_delete` names the row by the id in the record, and that is zero by then. -/
def questRemove (set : QuestSet) (id : ℤ) : Int × QuestSet :=
  match set.questGet id with
  | none => (-1, set)
  | some p =>
    match lookup Quest.ptr p set.list with
    | none => (-1, set)
    | some item =>
      let item' : Quest := { item with id := 0 }
      (0, { set with
        list := discard Quest.ptr p set.list
        deleted := if item'.dataFlag = 0x100 then set.deleted else set.deleted ++ [(item.id, item'.id)]
        gone := id :: set.gone })

end QuestSet

/-- The calls that change the set; `quest_get` and `quest_next` read it. -/
inductive QuestSetAct
  | add (ptr : ℕ) (id status acceptTime : ℤ)
  | remove (id : ℤ)
  | updateStatus (stored : Bool) (ptr : ℕ) (status record1 record2 count consumeItemSave1 consumeItemSave2
      acceptTime submitTime : ℤ)

def questSetStep (set : QuestSet) : QuestSetAct → Except Fault QuestSet
  | .add ptr id status acceptTime => return set.questAdd ptr id status acceptTime
  | .remove id => return (set.questRemove id).2
  | .updateStatus stored ptr status record1 record2 count consumeItemSave1 consumeItemSave2 acceptTime submitTime =>
    return { set with
      list := adjust Quest.ptr ptr (fun quest => questUpdateStatus stored quest status record1 record2 count
        consumeItemSave1 consumeItemSave2 acceptTime submitTime) set.list }

/-! ## Coherence -/

/-- The map and the list hold the same quests, each under its own id, which is not zero; a removed id is
not found; every deleted row is that of the quest removed. -/
structure QuestSet.Coherent (set : QuestSet) : Prop where
  same : ∀ k p, set.m k = some p ↔ ∃ q ∈ set.list, q.ptr = p ∧ q.id = k
  nonzero : ∀ q ∈ set.list, q.id ≠ 0
  gone : ∀ id ∈ set.gone, set.questGet id = none
  deleted : ∀ d ∈ set.deleted, d.2 = d.1

/-- A quest is added at an address of none in the list, under an `int` id that none in the list has. -/
def AddsNew (set : QuestSet) : QuestSetAct → Prop
  | .add ptr id _ _ => -2 ^ 31 ≤ id ∧ id < 2 ^ 31 ∧ ∀ q ∈ set.list, q.ptr ≠ ptr ∧ q.id ≠ toUnsigned id
  | _ => True

/-- No quest is added under the id zero, and none is removed. -/
def KeepsQuests (set : QuestSet) : QuestSetAct → Prop
  | .add _ id _ _ => id ≠ 0
  | .remove id => set.questGet id = none
  | .updateStatus _ _ _ _ _ _ _ _ _ _ => True

/-! ## Steps -/

section Steps
variable {set : QuestSet}

theorem toUnsigned_ne_zero {z : ℤ} (h : -2 ^ 31 ≤ z) (h' : z < 2 ^ 31) (hz : z ≠ 0) : toUnsigned z ≠ 0 := by
  unfold toUnsigned
  omega

theorem load_map (rows : List Quest) : ∀ m : ℕ → Option ℕ, DistinctKeys Quest.id rows → ∀ k p : ℕ,
    (rows.foldl (fun (m : ℕ → Option ℕ) cur => update m cur.id (some cur.ptr)) m) k = some p ↔
      (∃ q ∈ rows, q.ptr = p ∧ q.id = k) ∨ (∀ q ∈ rows, q.id ≠ k) ∧ m k = some p := by
  induction rows with
  | nil =>
    intro m _ k p
    simp
  | cons r rows ih =>
    intro m hu k p
    have hu' := nodup_cons.mp hu
    rw [foldl_cons, ih _ hu'.2]
    by_cases hk : r.id = k
    · subst hk
      have hrest : ∀ q ∈ rows, q.id ≠ r.id := fun q hq he => hu'.1 (mem_map.mpr ⟨q, hq, he⟩)
      rw [update_self]
      constructor
      · intro h
        rcases h with ⟨q, hq, -, hid⟩ | ⟨-, hp⟩
        · exact absurd hid (hrest q hq)
        · exact .inl ⟨r, mem_cons_self, Option.some.inj hp, rfl⟩
      · intro h
        rcases h with ⟨q, hq, hp, hid⟩ | ⟨hne, -⟩
        · rcases mem_cons.mp hq with rfl | hq
          · exact .inr ⟨hrest, congrArg some hp⟩
          · exact absurd hid (hrest q hq)
        · exact absurd rfl (hne r mem_cons_self)
    · rw [update_of_ne (Ne.symm hk)]
      simp [hk]

theorem questLoad_coherent {rows : List Quest} (hu : DistinctKeys Quest.id rows) :
    (QuestSet.questLoad rows).Coherent where
  same := by
    intro k p
    unfold QuestSet.questLoad
    simp only
    rw [load_map _ _ (Nodup.sublist (filter_sublist.map Quest.id) hu)]
    simp
  nonzero := by
    intro q hq
    simpa using (mem_filter.mp hq).2
  gone := fun _ h => absurd h not_mem_nil
  deleted := fun _ h => absurd h not_mem_nil

theorem QuestSet.Coherent.add (h : set.Coherent) (hgone : set.gone = []) {ptr : ℕ} {id : ℤ} (status acceptTime : ℤ)
    (hnew : AddsNew set (.add ptr id status acceptTime)) (hid : id ≠ 0) :
    (set.questAdd ptr id status acceptTime).Coherent where
  same := by
    intro k p
    unfold QuestSet.questAdd
    by_cases hk : k = toUnsigned id
    · subst hk
      simp only [update_self, mem_append, mem_singleton, Option.some.injEq]
      constructor
      · intro hp
        exact ⟨_, .inr rfl, hp, rfl⟩
      · intro hq
        obtain ⟨q, hq | rfl, hp, hqid⟩ := hq
        · exact absurd hqid (hnew.2.2 q hq).2
        · exact hp
    · simp only [update_of_ne hk, mem_append, mem_singleton]
      rw [h.same]
      constructor
      · intro hq
        obtain ⟨q, hq, hp⟩ := hq
        exact ⟨q, .inl hq, hp⟩
      · intro hq
        obtain ⟨q, hq | rfl, hp, hqid⟩ := hq
        · exact ⟨q, hq, hp, hqid⟩
        · exact absurd hqid.symm hk
  nonzero := by
    intro q hq
    rcases mem_append.mp hq with hq | hq
    · exact h.nonzero q hq
    · rw [mem_singleton.mp hq]
      exact toUnsigned_ne_zero hnew.1 hnew.2.1 hid
  gone := by
    unfold QuestSet.questAdd
    simp only [hgone, filter_nil]
    exact fun _ h => absurd h not_mem_nil
  deleted := h.deleted

theorem QuestSet.Coherent.adjust (h : set.Coherent) (ptr : ℕ) {f : Quest → Quest} (hptr : ∀ q, (f q).ptr = q.ptr)
    (hid : ∀ q, (f q).id = q.id) : ({ set with list := adjust Quest.ptr ptr f set.list } : QuestSet).Coherent := by
  have hmem : ∀ k p, (∃ q ∈ CServer.Lib.adjust Quest.ptr ptr f set.list, q.ptr = p ∧ q.id = k) ↔
      ∃ q ∈ set.list, q.ptr = p ∧ q.id = k := by
    intro k p
    have hf : ∀ q : Quest, (if q.ptr = ptr then f q else q).ptr = q.ptr ∧ (if q.ptr = ptr then f q else q).id = q.id := by
      intro q
      split
      · exact ⟨hptr q, hid q⟩
      · exact ⟨rfl, rfl⟩
    simp only [CServer.Lib.adjust, mem_map]
    constructor
    · intro hq
      obtain ⟨_, ⟨q, hq, rfl⟩, hp, hk⟩ := hq
      exact ⟨q, hq, (hf q).1 ▸ hp, (hf q).2 ▸ hk⟩
    · intro hq
      obtain ⟨q, hq, hp, hk⟩ := hq
      exact ⟨_, ⟨q, hq, rfl⟩, (hf q).1.trans hp, (hf q).2.trans hk⟩
  refine ⟨fun k p => (h.same k p).trans (hmem k p).symm, ?_, h.gone, h.deleted⟩
  intro q hq hz
  obtain ⟨q', hq', -, hk⟩ := (hmem 0 q.ptr).mp ⟨q, hq, rfl, hz⟩
  exact h.nonzero q' hq' hk

theorem remove_incoherent (h : set.Coherent) {id : ℤ} {p : ℕ} (hp : set.questGet id = some p) :
    ¬ (set.questRemove id).2.Coherent := by
  intro h'
  obtain ⟨q, hq, hqp, hqid⟩ := (h.same _ p).mp hp
  obtain ⟨item, hitem⟩ : ∃ item, lookup Quest.ptr p set.list = some item := by
    apply Option.ne_none_iff_exists'.mp
    intro hn
    exact lookup_none.mp hn q hq hqp
  have hrem : (set.questRemove id).2.list = discard Quest.ptr p set.list ∧ (set.questRemove id).2.m = set.m := by
    simp only [QuestSet.questRemove, hp, hitem, and_self]
  obtain ⟨q', hq', hp', -⟩ := (h'.same _ p).mp (by rw [hrem.2]; exact hp)
  rw [hrem.1] at hq'
  exact (mem_discard.mp hq').2 hp'

theorem questSetStep_ok (set : QuestSet) (a : QuestSetAct) : ∃ set', questSetStep set a = .ok set' := by
  cases a with
  | add ptr id status acceptTime => exact ⟨_, rfl⟩
  | remove id => exact ⟨_, rfl⟩
  | updateStatus stored ptr s r1 r2 c c1 c2 a t => exact ⟨_, rfl⟩

theorem questSetStep_keeps (a : QuestSetAct) {set' : QuestSet} (h : set.Coherent ∧ set.gone = [])
    (ha : AddsNew set a ∧ KeepsQuests set a) (hs : questSetStep set a = .ok set') :
    set'.Coherent ∧ set'.gone = [] := by
  cases a with
  | add ptr id status acceptTime =>
    obtain rfl := Except.ok.inj hs
    refine ⟨h.1.add h.2 status acceptTime ha.1 ha.2, ?_⟩
    unfold QuestSet.questAdd
    simp only [h.2, filter_nil]
  | remove id =>
    have hn : set.questGet id = none := ha.2
    obtain rfl := Except.ok.inj hs
    simp only [QuestSet.questRemove, hn]
    exact h
  | updateStatus stored ptr s r1 r2 c c1 c2 a t =>
    obtain rfl := Except.ok.inj hs
    exact ⟨h.1.adjust ptr (fun _ => rfl) (fun _ => rfl), h.2⟩

theorem questSetStep_needs (a : QuestSetAct) {set' : QuestSet} (h : set.Coherent) (hs : questSetStep set a = .ok set')
    (h' : set'.Coherent) : KeepsQuests set a := by
  cases a with
  | add ptr id status acceptTime =>
    obtain rfl := Except.ok.inj hs
    intro hz
    subst hz
    apply h'.nonzero _ (mem_append_right _ (mem_singleton_self _))
    rfl
  | remove id =>
    cases hg : set.questGet id with
    | none => exact hg
    | some p =>
      obtain rfl := Except.ok.inj hs
      exact absurd h' (remove_incoherent h hg)
  | updateStatus stored ptr s r1 r2 c c1 c2 a t => trivial

end Steps

/-- From the quests loaded on, in a run that adds quests anew, the set is coherent in every state exactly
when no id added is zero and no quest is removed. -/
theorem questSet_coherent (rows : List Quest) (hrows : DistinctKeys Quest.id rows) (acts : List QuestSetAct)
    (h : Along questSetStep AddsNew (QuestSet.questLoad rows) acts) :
    Throughout questSetStep QuestSet.Coherent (QuestSet.questLoad rows) acts ↔
      Along questSetStep KeepsQuests (QuestSet.questLoad rows) acts := by
  have h₀ := questLoad_coherent hrows
  constructor
  · intro ht
    apply along_of_throughout questSetStep_ok _ acts _ ht
    intro set a set' hc hs hc'
    exact questSetStep_needs a hc hs hc'
  · intro hk
    apply run_throughout (fun _ hs => hs.1) (fun _ a _ hc ha hs => questSetStep_keeps a hc ha hs) acts _ ⟨h₀, rfl⟩
    exact h.and hk

theorem questSet_coherent_finished :
    Throughout questSetStep QuestSet.Coherent (QuestSet.questLoad [])
      [.add 100 5 0 1000, .add 101 (-1) 0x100 1000, .updateStatus true 101 1 (-1) (-1) 1 (-1) (-1) 0 2000] := by
  apply (questSet_coherent [] nodup_nil _ _).mpr
  · exact .cons (show (5 : ℤ) ≠ 0 by decide) rfl (.cons (show (-1 : ℤ) ≠ 0 by decide) rfl (.cons trivial rfl trivial))
  · refine .cons ⟨by decide, by decide, fun _ hq => absurd hq not_mem_nil⟩ rfl
      (.cons ⟨by decide, by decide, ?_⟩ rfl (.cons trivial rfl trivial))
    decide

/-- A quest that is removed is found at its old address, and the row deleted is the one of the id zero. -/
theorem questRemove_leaves_in_map :
    ∃ set, run questSetStep (QuestSet.questLoad []) [.add 100 5 0 1000, .remove 5] = .ok set ∧
      set.list = [] ∧ set.questGet 5 = some 100 ∧ set.gone = [5] ∧ set.deleted = [(5, 0)] ∧ ¬ set.Coherent := by
  refine ⟨_, rfl, by decide, by decide, by decide, by decide, ?_⟩
  intro h
  exact absurd (h.gone 5 mem_cons_self) (by decide)

end CServer.Modules
