import Mathlib.Tactic
import Mathlib.Data.Fintype.Basic

/-! # `fight/battlefield/BuffManager.lua`: `BuffTarget`

A target keeps its buffs, and for each callback a list of the uuids of those whose script has it. The buffs change at once;
a list is cleaned only when its event is delivered, of the uuids that are not of buffs then.
-/
namespace CServer.Fight
open List Function

/-! ## Events -/

inductive GlobalCallback
  | onUnitDead
  | onUnitEnter
  | onRoundStart
  | onRoundEnd
  | onPetEnter
  | afterGuide
  | onFightEnd
deriving DecidableEq

inductive TargetCallback
  | onTick
  | onPostTick
  | attackerBeforeAttack
  | targetBeforeAttack
  | attackerFilter
  | attackerAfterAttack
  | targetAfterAttack
  | attackerBeforeHit
  | targetBeforeHit
  | targetFilter
  | attackerAfterCalc
  | targetAfterCalc
  | attackerWillHit
  | targetWillHit
  | attackerAfterHit
  | targetAfterHit
  | onSkillCast
  | spineAnimationEvent
deriving DecidableEq

instance : Fintype TargetCallback :=
  .ofList [.onTick, .onPostTick, .attackerBeforeAttack, .targetBeforeAttack, .attackerFilter, .attackerAfterAttack,
    .targetAfterAttack, .attackerBeforeHit, .targetBeforeHit, .targetFilter, .attackerAfterCalc, .targetAfterCalc,
    .attackerWillHit, .targetWillHit, .attackerAfterHit, .targetAfterHit, .onSkillCast, .spineAnimationEvent] fun callback => by
      cases callback
      all_goals decide

inductive BuffEvent
  | timelineLeave
  | timelineEnter
  | timelineBeforeRoundSync
  | timelineAfterRoundSync
  | petEnter
  | battleGuideChane
  | timelineFinished
  | petBeforeAction
  | petAfterAction
  | timelineBeforeActionSync
  | timelineAfterActionSync
  | bulletAttackerBeforeAttack
  | bulletTargetBeforeAttack
  | bulletAttackerFilter
  | bulletAttackerAfterAttack
  | bulletTargetAfterAttack
  | bulletAttackerBeforeHit
  | bulletTargetBeforeHit
  | bulletTargetFilter
  | bulletAttackerAfterCalc
  | bulletTargetAfterCalc
  | bulletAttackerWillHit
  | bulletTargetWillHit
  | bulletAttackerAfterHit
  | bulletTargetAfterHit
  | unitCastSkill
  | spineAnimationEvent
deriving DecidableEq

def globalEvents : BuffEvent → Option GlobalCallback
  | .timelineLeave => some .onUnitDead
  | .timelineEnter => some .onUnitEnter
  | .timelineBeforeRoundSync => some .onRoundStart
  | .timelineAfterRoundSync => some .onRoundEnd
  | .petEnter => some .onPetEnter
  | .battleGuideChane => some .afterGuide
  | .timelineFinished => some .onFightEnd
  | _ => none

def targetEvents : BuffEvent → Option TargetCallback
  | .petBeforeAction => some .onTick
  | .petAfterAction => some .onPostTick
  | .timelineBeforeActionSync => some .onTick
  | .timelineAfterActionSync => some .onPostTick
  | .bulletAttackerBeforeAttack => some .attackerBeforeAttack
  | .bulletTargetBeforeAttack => some .targetBeforeAttack
  | .bulletAttackerFilter => some .attackerFilter
  | .bulletAttackerAfterAttack => some .attackerAfterAttack
  | .bulletTargetAfterAttack => some .targetAfterAttack
  | .bulletAttackerBeforeHit => some .attackerBeforeHit
  | .bulletTargetBeforeHit => some .targetBeforeHit
  | .bulletTargetFilter => some .targetFilter
  | .bulletAttackerAfterCalc => some .attackerAfterCalc
  | .bulletTargetAfterCalc => some .targetAfterCalc
  | .bulletAttackerWillHit => some .attackerWillHit
  | .bulletTargetWillHit => some .targetWillHit
  | .bulletAttackerAfterHit => some .attackerAfterHit
  | .bulletTargetAfterHit => some .targetAfterHit
  | .unitCastSkill => some .onSkillCast
  | .spineAnimationEvent => some .spineAnimationEvent
  | _ => none

theorem globalEvents_targetEvents (event : BuffEvent) : globalEvents event = none ∨ targetEvents event = none := by
  cases event
  all_goals first | exact .inl rfl | exact .inr rfl

theorem targetEvents_onto (callback : TargetCallback) : ∃ event, targetEvents event = some callback := by
  cases callback
  exacts [⟨.petBeforeAction, rfl⟩, ⟨.petAfterAction, rfl⟩, ⟨.bulletAttackerBeforeAttack, rfl⟩,
    ⟨.bulletTargetBeforeAttack, rfl⟩, ⟨.bulletAttackerFilter, rfl⟩, ⟨.bulletAttackerAfterAttack, rfl⟩,
    ⟨.bulletTargetAfterAttack, rfl⟩, ⟨.bulletAttackerBeforeHit, rfl⟩, ⟨.bulletTargetBeforeHit, rfl⟩,
    ⟨.bulletTargetFilter, rfl⟩, ⟨.bulletAttackerAfterCalc, rfl⟩, ⟨.bulletTargetAfterCalc, rfl⟩,
    ⟨.bulletAttackerWillHit, rfl⟩, ⟨.bulletTargetWillHit, rfl⟩, ⟨.bulletAttackerAfterHit, rfl⟩,
    ⟨.bulletTargetAfterHit, rfl⟩, ⟨.unitCastSkill, rfl⟩, ⟨.spineAnimationEvent, rfl⟩]

/-! ## Targets -/

/-- `buffs` are the uuids in the table of the source; `E` are the callbacks of its table of events. -/
structure BuffTarget (E : Type) where
  buffs : List ℕ
  events : E → List ℕ
  nodup : buffs.Nodup

namespace BuffTarget
variable {E : Type}

def new : BuffTarget E := ⟨[], fun _ => [], .nil⟩

def add (self : BuffTarget E) (uuid : ℕ) (handles : E → Bool) : Option (BuffTarget E) :=
  if h : uuid ∈ self.buffs then none
  else some {
    buffs := self.buffs ++ [uuid]
    events := fun k => if handles k = true then self.events k ++ [uuid] else self.events k
    nodup := nodup_append.mpr ⟨self.nodup, nodup_singleton uuid,
      fun _ ha _ hb hab => h (mem_singleton.mp hb ▸ hab ▸ ha)⟩ }

def remove (self : BuffTarget E) (uuid : ℕ) : BuffTarget E :=
  { self with buffs := self.buffs.filter (· ≠ uuid), nodup := self.nodup.filter _ }

/-- `BuffTarget:All`; `pairs` may visit the buffs in any order, as in `visit` if that is one. -/
def all (self : BuffTarget E) (visit : List ℕ) : List ℕ := if visit.Perm self.buffs then visit else self.buffs

def call [DecidableEq E] (self : BuffTarget E) (handles : ℕ → E → Bool) (event : E) : BuffTarget E × List ℕ :=
  let nlist := (self.events event).filter fun uuid => uuid ∈ self.buffs
  let clist := nlist.filter fun uuid => handles uuid event
  ({ self with events := update self.events event nlist }, clist)

end BuffTarget

/-! ## Once -/

namespace BuffTarget
variable {E : Type} {self into : BuffTarget E} {uuid : ℕ}

theorem mem_remove {uuid' : ℕ} : uuid' ∈ (self.remove uuid).buffs ↔ uuid' ∈ self.buffs ∧ uuid' ≠ uuid := by
  simp only [remove, mem_filter, decide_eq_true_eq]

structure Below (t : BuffTarget E) (n : ℕ) : Prop where
  buffs : ∀ uuid ∈ t.buffs, uuid < n
  events : ∀ e, ∀ uuid ∈ t.events e, uuid < n

theorem below_new {n : ℕ} : (new : BuffTarget E).Below n := ⟨fun _ hmem => (nomatch hmem), fun _ _ hmem => (nomatch hmem)⟩

theorem Below.mono {m n : ℕ} (h : self.Below m) (hmn : m ≤ n) : self.Below n :=
  ⟨fun uuid hmem => (h.buffs uuid hmem).trans_le hmn, fun e uuid hmem => (h.events e uuid hmem).trans_le hmn⟩

theorem Below.remove {n : ℕ} (h : self.Below n) : (self.remove uuid).Below n :=
  ⟨fun uuid' hmem => h.buffs uuid' (mem_remove.mp hmem).1, h.events⟩

theorem add_present {own : E → Bool} (hadd : self.add uuid own = none) : uuid ∈ self.buffs := by
  by_contra habsent
  rw [add, dif_neg habsent] at hadd
  exact nomatch hadd

theorem count_attached (hbuff : uuid ∈ self.buffs) (l : List ℕ) :
    (l.filter fun uuid => uuid ∈ self.buffs).count uuid = l.count uuid :=
  count_filter (p := fun uuid => decide (uuid ∈ self.buffs)) (decide_eq_true hbuff)

section Add
variable {own : E → Bool} (hadd : self.add uuid own = some into)
include hadd

theorem add_absent : uuid ∉ self.buffs := by
  intro hmem
  rw [add, dif_pos hmem] at hadd
  exact nomatch hadd

theorem add_buffs : into.buffs = self.buffs ++ [uuid] := by
  rw [add, dif_neg (add_absent hadd)] at hadd
  exact Option.some.inj hadd ▸ rfl

theorem add_events (e : E) : into.events e = if own e = true then self.events e ++ [uuid] else self.events e := by
  rw [add, dif_neg (add_absent hadd)] at hadd
  exact Option.some.inj hadd ▸ rfl

theorem mem_add {uuid' : ℕ} : uuid' ∈ into.buffs ↔ uuid' ∈ self.buffs ∨ uuid' = uuid := by
  rw [add_buffs hadd, mem_append, mem_singleton]

theorem add_listed {uuid' : ℕ} {e : E} (hmem : uuid' ∈ into.events e) : uuid' ∈ self.events e ∨ uuid' = uuid := by
  rw [add_events hadd] at hmem
  split at hmem
  · exact (mem_append.mp hmem).imp_right mem_singleton.mp
  · exact .inl hmem

theorem Below.add {n : ℕ} (h : self.Below n) (hn : uuid < n) : into.Below n where
  buffs uuid' hmem := ((mem_add hadd).mp hmem).elim (h.buffs uuid') fun heq => heq ▸ hn
  events e uuid' hmem := (add_listed hadd hmem).elim (h.events e uuid') fun heq => heq ▸ hn

end Add

variable [DecidableEq E] {handles : ℕ → E → Bool}

theorem Below.call {n : ℕ} (h : self.Below n) (handles : ℕ → E → Bool) (callback : E) : (self.call handles callback).1.Below n where
  buffs := h.buffs
  events e uuid hmem := by
    by_cases he : e = callback
    · subst he
      simp only [BuffTarget.call, update_self] at hmem
      exact h.events e uuid (mem_of_mem_filter hmem)
    · simp only [BuffTarget.call, update_of_ne he] at hmem
      exact h.events e uuid hmem

def Once (self : BuffTarget E) (handles : ℕ → E → Bool) : Prop := ∀ e,
  (self.call handles e).2.Nodup ∧ ∀ uuid, uuid ∈ (self.call handles e).2 ↔ uuid ∈ self.buffs ∧ handles uuid e = true

theorem mem_call {e : E} :
    uuid ∈ (self.call handles e).2 ↔ uuid ∈ self.events e ∧ uuid ∈ self.buffs ∧ handles uuid e = true := by
  simp only [call, mem_filter, decide_eq_true_eq, and_assoc]

theorem count_call {e : E} (hbuff : uuid ∈ self.buffs) (hhandles : handles uuid e = true) :
    (self.call handles e).2.count uuid = (self.events e).count uuid :=
  (count_filter (p := fun uuid => handles uuid e) hhandles).trans (count_attached hbuff _)

theorem once_iff : self.Once handles ↔
    ∀ e uuid, uuid ∈ self.buffs → handles uuid e = true → (self.events e).count uuid = 1 := by
  constructor
  · intro h e uuid hbuff hhandles
    have hmem : uuid ∈ (self.call handles e).2 := ((h e).2 uuid).mpr ⟨hbuff, hhandles⟩
    rw [← count_call hbuff hhandles]
    exact count_eq_one_of_mem (h e).1 hmem
  · intro h e
    refine ⟨nodup_iff_count_le_one.mpr fun uuid => ?_, fun uuid => ?_⟩
    · by_cases hmem : uuid ∈ (self.call handles e).2
      · obtain ⟨-, hbuff, hhandles⟩ := mem_call.mp hmem
        rw [count_call hbuff hhandles, h e uuid hbuff hhandles]
      · rw [count_eq_zero_of_not_mem hmem]
        exact Nat.zero_le 1
    · refine mem_call.trans ⟨fun hmem => hmem.2, fun hmem => ⟨?_, hmem⟩⟩
      have hcount := h e uuid hmem.1 hmem.2
      exact count_pos_iff.mp (by omega)

theorem once_new : (new : BuffTarget E).Once handles := once_iff.mpr fun _ _ hbuff => nomatch hbuff

theorem Once.congr {handles' : ℕ → E → Bool} (h : self.Once handles)
    (heq : ∀ uuid ∈ self.buffs, handles' uuid = handles uuid) : self.Once handles' := by
  refine once_iff.mpr fun e uuid hbuff hhandles => ?_
  rw [heq uuid hbuff] at hhandles
  exact once_iff.mp h e uuid hbuff hhandles

theorem Once.remove (h : self.Once handles) : (self.remove uuid).Once handles :=
  once_iff.mpr fun e uuid' hbuff => once_iff.mp h e uuid' (mem_remove.mp hbuff).1

theorem Once.call (h : self.Once handles) (callback : E) : (self.call handles callback).1.Once handles := by
  refine once_iff.mpr fun e uuid hbuff hhandles => ?_
  have hcount := once_iff.mp h e uuid hbuff hhandles
  by_cases he : e = callback
  · subst he
    simp only [BuffTarget.call, update_self]
    exact (count_attached hbuff _).trans hcount
  · simpa only [BuffTarget.call, update_of_ne he] using hcount

theorem once_add {own : E → Bool} (hadd : self.add uuid own = some into) (hown : ∀ e, handles uuid e = own e) :
    into.Once handles ↔ self.Once handles ∧ ∀ e, own e = true → uuid ∉ self.events e := by
  have hother : ∀ e uuid', uuid' ∈ self.buffs → (into.events e).count uuid' = (self.events e).count uuid' := by
    intro e uuid' hbuff
    have hne : uuid ≠ uuid' := fun heq => add_absent hadd (heq ▸ hbuff)
    rw [add_events hadd]
    split
    · rw [count_append, count_singleton, if_neg (by simpa using hne), Nat.add_zero]
    · rfl
  have hself : ∀ e, own e = true → (into.events e).count uuid = (self.events e).count uuid + 1 := by
    intro e he
    rw [add_events hadd, if_pos he, count_append, count_singleton_self]
  constructor
  · intro h
    refine ⟨once_iff.mpr fun e uuid' hbuff hhandles => ?_, fun e he hmem => ?_⟩
    · rw [← hother e uuid' hbuff]
      exact once_iff.mp h e uuid' ((mem_add hadd).mpr (.inl hbuff)) hhandles
    · have hcount := once_iff.mp h e uuid ((mem_add hadd).mpr (.inr rfl)) ((hown e).trans he)
      have hpos := count_pos_iff.mpr hmem
      rw [hself e he] at hcount
      omega
  · intro ⟨h, hfresh⟩
    refine once_iff.mpr fun e uuid' hbuff hhandles => ?_
    rcases (mem_add hadd).mp hbuff with hold | rfl
    · rw [hother e uuid' hold]
      exact once_iff.mp h e uuid' hold hhandles
    · have he : own e = true := (hown e).symm.trans hhandles
      rw [hself e he, count_eq_zero_of_not_mem (hfresh e he)]

end BuffTarget

end CServer.Fight
