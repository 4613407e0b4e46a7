import Mathlib.Tactic

/-! # Splitting a list that arrives in parts

The pieces of `s.splitOnP p` but for the last one are settled once their separator has been seen; the last one is
open and goes on in what comes behind `s`.
-/
namespace CServer.Lib
open List

variable {α : Type} {p : α → Bool} {s last : List α} {done : List (List α)} {b : α}

theorem exists_open (p : α → Bool) (s : List α) : ∃ done last, s.splitOnP p = done ++ [last] :=
  ⟨_, _, (dropLast_append_getLast (splitOnP_ne_nil p s)).symm⟩

theorem open_inj {done done' : List (List α)} {last last' : List α} (h : done ++ [last] = done' ++ [last']) :
    done = done' ∧ last = last' := by
  obtain ⟨hdone, hlast⟩ := append_inj' h rfl
  exact ⟨hdone, singleton_inj.mp hlast⟩

theorem splitOnP_append (s : List α) : ∀ {done : List (List α)} {last : List α}, s.splitOnP p = done ++ [last] →
    ∀ r, (s ++ r).splitOnP p = done ++ (last ++ r).splitOnP p := by
  induction s with
  | nil =>
    intro done last h r
    obtain ⟨rfl, rfl⟩ := open_inj (show [] ++ [[]] = done ++ [last] from h)
    rfl
  | cons x s ih =>
    intro done last h r
    obtain ⟨done', last', hs⟩ := exists_open p s
    rw [splitOnP_cons_eq_if_modifyHead, hs] at h
    rw [cons_append, splitOnP_cons_eq_if_modifyHead, ih hs]
    by_cases hx : p x = true
    · rw [if_pos hx] at h ⊢
      obtain ⟨rfl, rfl⟩ := open_inj (show ([] :: done') ++ [last'] = _ from h)
      rfl
    · rw [if_neg hx] at h ⊢
      cases done' with
      | nil =>
        obtain ⟨rfl, rfl⟩ := open_inj (show [] ++ [x :: last'] = _ from h)
        rw [cons_append, splitOnP_cons_eq_if_modifyHead, if_neg hx]
        rfl
      | cons d ds =>
        obtain ⟨rfl, rfl⟩ := open_inj (show ((x :: d) :: ds) ++ [last'] = _ from h)
        rfl

theorem splitOnP_snoc_sep (hb : p b = true) : (s ++ [b]).splitOnP p = s.splitOnP p ++ [[]] := by
  rw [splitOnP_append_cons s [] hb, splitOnP_nil]

theorem open_free (h : s.splitOnP p = done ++ [last]) : ∀ x ∈ last, p x = false := by
  intro x hx
  have hsame := splitOnP_append s h []
  rw [append_nil, append_nil, h] at hsame
  have hsingle : last.splitOnP p = [last] := (append_cancel_left hsame).symm
  obtain ⟨front, back, rfl⟩ := append_of_mem hx
  by_contra hp
  rw [splitOnP_append_cons front back (by simpa using hp)] at hsingle
  have hlen := congrArg List.length hsingle
  have hfront := length_pos_of_ne_nil (splitOnP_ne_nil p front)
  have hback := length_pos_of_ne_nil (splitOnP_ne_nil p back)
  rw [length_append, length_singleton] at hlen
  omega

theorem splitOnP_snoc (h : s.splitOnP p = done ++ [last]) (hb : p b = false) :
    (s ++ [b]).splitOnP p = done ++ [last ++ [b]] := by
  rw [splitOnP_append s h, splitOnP_eq_singleton]
  intro x hx
  obtain hx | hx := mem_append.mp hx
  · exact open_free h x hx
  · rw [mem_singleton.mp hx]
    exact hb

theorem splitOnP_free_append {a : List α} (r : List α) (ha : ∀ x ∈ a, p x = false) :
    (a ++ r).splitOnP p = (r.splitOnP p).modifyHead (a ++ ·) := by
  induction a with
  | nil =>
    obtain ⟨head, tail, hr⟩ := exists_cons_of_ne_nil (splitOnP_ne_nil p r)
    rw [nil_append, hr]
    rfl
  | cons x a ih =>
    have hx : ¬ p x = true := by simp [ha x mem_cons_self]
    rw [cons_append, splitOnP_cons_eq_if_modifyHead, if_neg hx, ih fun y hy => ha y (mem_cons_of_mem x hy)]
    rw [modifyHead_modifyHead]
    rfl

theorem exists_extended (h : s.splitOnP p = done ++ [last]) (r : List α) : ∃ more, last ++ more ∈ (s ++ r).splitOnP p := by
  obtain ⟨head, tail, hr⟩ := exists_cons_of_ne_nil (splitOnP_ne_nil p r)
  refine ⟨head, ?_⟩
  rw [splitOnP_append s h, splitOnP_free_append r (open_free h), hr]
  exact mem_append_right done mem_cons_self

end CServer.Lib
