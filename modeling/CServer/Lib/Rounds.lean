import Mathlib.Data.Multiset.Basic
import Mathlib.Data.Multiset.AddSub
import Mathlib.Tactic

/-! # Taking turns in rounds

The participants of a round are active until they have finished and then rest for the next one;
newcomers rest at once. A new round makes all of them active. `regroup` sends everybody to rest.
A history lists the events, the last one first.
-/
namespace CServer.Lib
open List

variable {α : Type}

inductive RoundEvent (α : Type)
  | join (a : α)
  | leave (a : α)
  | serve (a : α)
  | finish (a : α)
  | idle
  | regroup
  | round (roster : Multiset α)
deriving DecidableEq

structure Lineup (α : Type) where
  active : Multiset α
  resting : Multiset α

namespace Lineup

def all (l : Lineup α) : Multiset α := l.active + l.resting

def Step (l : Lineup α) (l' : Lineup α) : RoundEvent α → Prop
  | .join a => a ∉ l.all ∧ l'.active = l.active ∧ l'.resting = a ::ₘ l.resting
  | .leave a =>
    (l.active = a ::ₘ l'.active ∧ l'.resting = l.resting) ∨ (l'.active = l.active ∧ l.resting = a ::ₘ l'.resting)
  | .serve a => a ∈ l.active ∧ l' = l
  | .finish a => l.active = a ::ₘ l'.active ∧ l'.resting = a ::ₘ l.resting
  | .idle => l.active = 0 ∧ l' = l
  | .regroup => l'.active = 0 ∧ l'.resting = l.all
  | .round roster => l'.active = l.all ∧ l'.resting = 0 ∧ roster = l.all

inductive Trace (l : Lineup α) : List (RoundEvent α) → Lineup α → Prop
  | nil : Trace l [] l
  | cons {es : List (RoundEvent α)} {e : RoundEvent α} {l' l'' : Lineup α} :
      Trace l es l' → Step l' l'' e → Trace l (e :: es) l''

theorem Trace.single {l l' : Lineup α} {e : RoundEvent α} (h : l.Step l' e) : l.Trace [e] l' := .cons .nil h

theorem Trace.append {l l' l'' : Lineup α} {es es' : List (RoundEvent α)} (h : l.Trace es l') (h' : l'.Trace es' l'') :
    l.Trace (es' ++ es) l'' := by
  induction h' with
  | nil => exact h
  | cons _ hstep ih => exact .cons ih hstep

end Lineup

/-! ## Histories -/

def RoundEvent.isRound : RoundEvent α → Bool
  | .round _ => true
  | _ => false

def sinceRound (h : List (RoundEvent α)) : List (RoundEvent α) := h.takeWhile fun e => !e.isRound

theorem sinceRound_cons {e : RoundEvent α} (he : e.isRound = false) (h : List (RoundEvent α)) :
    sinceRound (e :: h) = e :: sinceRound h := by
  unfold sinceRound
  rw [takeWhile_cons_of_pos (by simp [he])]

def roster : List (RoundEvent α) → Multiset α
  | [] => 0
  | .round present :: _ => present
  | _ :: h => roster h

theorem roster_cons {e : RoundEvent α} (he : e.isRound = false) (h : List (RoundEvent α)) : roster (e :: h) = roster h := by
  cases e with
  | round => exact absurd he (by simp [RoundEvent.isRound])
  | _ => rfl

variable [DecidableEq α]

def FairEvent (h : List (RoundEvent α)) : RoundEvent α → Prop
  | .finish a => .finish a ∉ sinceRound h
  | .serve a => .join a ∉ sinceRound h
  | .idle => .regroup ∉ sinceRound h → ∀ a ∈ roster h, .leave a ∉ sinceRound h → (sinceRound h).count (.finish a) = 1
  | _ => True

def FairHistory : List (RoundEvent α) → Prop
  | [] => True
  | e :: h => FairEvent h e ∧ FairHistory h

structure Fairly (h : List (RoundEvent α)) (l : Lineup α) : Prop where
  nodup : l.all.Nodup
  unfinished : ∀ a ∈ l.active, .finish a ∉ sinceRound h
  present : ∀ a ∈ l.active, .join a ∉ sinceRound h
  once : ∀ a, (sinceRound h).count (.finish a) ≤ 1
  served : .regroup ∉ sinceRound h → ∀ a ∈ roster h, .leave a ∉ sinceRound h → a ∈ l.active ∨ .finish a ∈ sinceRound h
  fair : FairHistory h

theorem Fairly.empty : Fairly ([] : List (RoundEvent α)) ⟨0, 0⟩ where
  nodup := Multiset.nodup_zero
  unfinished _ h := absurd h (Multiset.notMem_zero _)
  present _ h := absurd h (Multiset.notMem_zero _)
  once _ := Nat.zero_le 1
  served _ _ h := absurd h (Multiset.notMem_zero _)
  fair := trivial

section Steps
variable {h : List (RoundEvent α)} {l l' : Lineup α}

theorem Fairly.cons (hl : Fairly h l) {e : RoundEvent α} (he : e.isRound = false) (hfair : FairEvent h e)
    (hnodup : l'.all.Nodup) (hactive : ∀ a ∈ l'.active, a ∈ l.active ∧ e ≠ .finish a ∧ e ≠ .join a)
    (hserved : e ≠ .regroup → ∀ a ∈ l.active, e ≠ .leave a → a ∈ l'.active ∨ e = .finish a) : Fairly (e :: h) l' where
  nodup := hnodup
  unfinished a ha := by
    rw [sinceRound_cons he, mem_cons, not_or]
    exact ⟨(hactive a ha).2.1.symm, hl.unfinished a (hactive a ha).1⟩
  present a ha := by
    rw [sinceRound_cons he, mem_cons, not_or]
    exact ⟨(hactive a ha).2.2.symm, hl.present a (hactive a ha).1⟩
  once a := by
    rw [sinceRound_cons he, count_cons]
    split
    · rename_i heq
      obtain rfl := eq_of_beq heq
      rw [count_eq_zero.mpr hfair]
    · exact hl.once a
  served hregroup a ha hleave := by
    rw [sinceRound_cons he] at hregroup hleave ⊢
    rw [roster_cons he] at ha
    rw [mem_cons, not_or] at hregroup hleave
    rw [mem_cons]
    cases hl.served hregroup.2 a ha hleave.2 with
    | inl hact => exact (hserved (Ne.symm hregroup.1) a hact (Ne.symm hleave.1)).imp id fun heq => .inl heq.symm
    | inr hfin => exact .inr (.inr hfin)
  fair := ⟨hfair, hl.fair⟩

omit [DecidableEq α] in
theorem nodup_of_cons {a : α} {s t : Multiset α} (h : (a ::ₘ s + t).Nodup) : (s + t).Nodup ∧ a ∉ s := by
  rw [Multiset.cons_add, Multiset.nodup_cons] at h
  exact ⟨h.2, fun ha => h.1 (Multiset.mem_add.mpr (.inl ha))⟩

theorem Fairly.step (hl : Fairly h l) {e : RoundEvent α} (hstep : l.Step l' e) : Fairly (e :: h) l' := by
  have hnodup := hl.nodup
  cases e with
  | join a =>
    obtain ⟨hnew, hactive, hresting⟩ := hstep
    refine hl.cons rfl trivial ?_ ?_ fun _ b hb _ => .inl (hactive ▸ hb)
    · unfold Lineup.all
      rw [hactive, hresting, Multiset.add_cons]
      exact Multiset.nodup_cons.mpr ⟨hnew, hnodup⟩
    · intro b hb
      rw [hactive] at hb
      refine ⟨hb, nofun, fun heq => hnew ?_⟩
      obtain rfl := RoundEvent.join.inj heq
      exact Multiset.mem_add.mpr (.inl hb)
  | leave a =>
    cases hstep with
    | inl hact =>
      rw [Lineup.all, hact.1, ← hact.2] at hnodup
      refine hl.cons rfl trivial (nodup_of_cons hnodup).1 ?_ ?_
      · intro b hb
        rw [hact.1]
        exact ⟨Multiset.mem_cons_of_mem hb, nofun, nofun⟩
      · intro _ b hb hne
        rw [hact.1] at hb
        exact .inl ((Multiset.mem_cons.mp hb).resolve_left fun heq => hne (by rw [heq]))
    | inr hrest =>
      rw [Lineup.all, hrest.2, ← hrest.1, Multiset.add_comm] at hnodup
      refine hl.cons rfl trivial ?_ ?_ fun _ b hb _ => .inl (hrest.1 ▸ hb)
      · rw [Lineup.all, Multiset.add_comm]
        exact (nodup_of_cons hnodup).1
      · exact fun b hb => ⟨hrest.1 ▸ hb, nofun, nofun⟩
  | serve a =>
    obtain ⟨ha, rfl⟩ := hstep
    exact hl.cons rfl (hl.present a ha) hnodup (fun b hb => ⟨hb, nofun, nofun⟩)
      fun _ b hb _ => .inl hb
  | finish a =>
    obtain ⟨hactive, hresting⟩ := hstep
    have ha : a ∈ l.active := hactive ▸ Multiset.mem_cons_self a l'.active
    rw [Lineup.all, hactive] at hnodup
    obtain ⟨hrest, hnot⟩ := nodup_of_cons hnodup
    refine hl.cons rfl (hl.unfinished a ha) ?_ ?_ ?_
    · rw [Lineup.all, hresting, Multiset.add_cons]
      rw [Multiset.cons_add] at hnodup
      exact hnodup
    · intro b hb
      refine ⟨hactive ▸ Multiset.mem_cons_of_mem hb, fun heq => hnot ?_, nofun⟩
      obtain rfl := RoundEvent.finish.inj heq
      exact hb
    · intro _ b hb _
      rw [hactive] at hb
      exact (Multiset.mem_cons.mp hb).symm.imp id fun heq => by rw [heq]
  | idle =>
    obtain ⟨hnone, rfl⟩ := hstep
    refine hl.cons rfl ?_ hnodup (fun b hb => ⟨hb, nofun, nofun⟩)
      fun _ b hb _ => .inl hb
    intro hregroup a ha hleave
    have hfin := (hl.served hregroup a ha hleave).resolve_left (hnone ▸ Multiset.notMem_zero a)
    exact Nat.le_antisymm (hl.once a) (count_pos_iff.mpr hfin)
  | regroup =>
    obtain ⟨hactive, hresting⟩ := hstep
    refine hl.cons rfl trivial ?_ (fun b hb => ?_) fun hne => absurd rfl hne
    · rw [Lineup.all, hactive, hresting, Multiset.zero_add]
      exact hnodup
    · rw [hactive] at hb
      exact absurd hb (Multiset.notMem_zero b)
  | round present =>
    obtain ⟨hactive, hresting, rfl⟩ := hstep
    constructor
    case nodup =>
      rw [Lineup.all, hactive, hresting, Multiset.add_zero]
      exact hnodup
    case unfinished => exact fun _ _ => not_mem_nil
    case present => exact fun _ _ => not_mem_nil
    case once => exact fun _ => Nat.zero_le 1
    case served => exact fun _ a ha _ => .inl (hactive ▸ ha)
    case fair => exact ⟨trivial, hl.fair⟩

theorem Fairly.trace (hl : Fairly h l) {es : List (RoundEvent α)} (htrace : l.Trace es l') : Fairly (es ++ h) l' := by
  induction htrace with
  | nil => exact hl
  | cons _ hstep ih => exact ih.step hstep

end Steps

theorem fair_of_trace {es : List (RoundEvent α)} {l : Lineup α} (h : (⟨0, 0⟩ : Lineup α).Trace es l) : FairHistory es := by
  have hfair := (Fairly.empty.trace h).fair
  rwa [append_nil] at hfair

end CServer.Lib
