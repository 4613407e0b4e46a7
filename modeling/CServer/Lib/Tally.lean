import Mathlib.Tactic

/-! # Association lists of sums

Amounts are added to the entry of their key, which is put in front of the list where there is none. Who still holds the
list as it was before sees what has been added to the entries it had, and not the entries in front of it.
-/
namespace CServer.Lib
open List

variable {κ M : Type} [DecidableEq κ] [AddCommMonoid M] [DecidableEq M]

def tallyBump (t : κ) (v : M) : List (κ × M) → List (κ × M)
  | [] => []
  | c :: l => if c.1 = t then (c.1, c.2 + v) :: l else c :: tallyBump t v l

def tallyAdd (l : List (κ × M)) (c : κ × M) : List (κ × M) :=
  if c.2 = 0 then l
  else if c.1 ∈ l.map Prod.fst then tallyBump c.1 c.2 l
  else c :: l

def tallyAll (l cs : List (κ × M)) : List (κ × M) := cs.foldl tallyAdd l

def tallySeen (l l' : List (κ × M)) : List (κ × M) := l'.drop (l'.length - l.length)

def tallyGet (l : List (κ × M)) (t : κ) : M := ((l.find? fun c => c.1 = t).map Prod.snd).getD 0

def tallySum (cs : List (κ × M)) (t : κ) : M := ((cs.filter fun c => c.1 = t).map Prod.snd).sum

variable {l l' cs ds : List (κ × M)} {t u : κ} {v : M}

omit [DecidableEq M] in
theorem tallyGet_cons (c : κ × M) : tallyGet (c :: l) u = if c.1 = u then c.2 else tallyGet l u := by
  unfold tallyGet
  rw [List.find?_cons]
  by_cases hc : c.1 = u
  · simp [hc]
  · simp [hc]

omit [DecidableEq M] in
theorem tallyGet_of_not_mem (hu : u ∉ l.map Prod.fst) : tallyGet l u = 0 := by
  induction l with
  | nil => rfl
  | cons c l ih =>
    simp only [map_cons, mem_cons, not_or] at hu
    rw [tallyGet_cons, if_neg (Ne.symm hu.1), ih hu.2]

omit [DecidableEq M] in
theorem tallyGet_append_of_not_mem (hu : u ∉ l.map Prod.fst) : tallyGet (l ++ l') u = tallyGet l' u := by
  induction l with
  | nil => rfl
  | cons c l ih =>
    simp only [map_cons, mem_cons, not_or] at hu
    rw [cons_append, tallyGet_cons, if_neg (Ne.symm hu.1), ih hu.2]

omit [DecidableEq M] in
theorem tallySum_cons (c : κ × M) : tallySum (c :: cs) u = (if c.1 = u then c.2 else 0) + tallySum cs u := by
  unfold tallySum
  by_cases hc : c.1 = u
  · simp [hc]
  · simp [hc]

omit [DecidableEq M] in
theorem tallySum_append : tallySum (cs ++ ds) u = tallySum cs u + tallySum ds u := by
  unfold tallySum
  rw [filter_append, map_append, sum_append]

/-! ## Adding -/

omit [DecidableEq M] in
theorem tallyBump_keys (t : κ) (v : M) (l : List (κ × M)) : (tallyBump t v l).map Prod.fst = l.map Prod.fst := by
  induction l with
  | nil => rfl
  | cons c l ih =>
    rw [tallyBump]
    split
    · rfl
    · rw [map_cons, map_cons, ih]

omit [DecidableEq M] in
theorem tallyGet_bump (ht : t ∈ l.map Prod.fst) :
    tallyGet (tallyBump t v l) u = tallyGet l u + if t = u then v else 0 := by
  induction l with
  | nil => simp at ht
  | cons c l ih =>
    rw [tallyBump]
    by_cases hc : c.1 = t
    · rw [if_pos hc, tallyGet_cons, tallyGet_cons]
      by_cases hu : c.1 = u
      · simp [hu, hc.symm.trans hu]
      · have htu : t ≠ u := fun h => hu (hc.trans h)
        simp [hu, htu]
    · rw [if_neg hc, tallyGet_cons, tallyGet_cons]
      have ht' : t ∈ l.map Prod.fst := by
        rw [map_cons, mem_cons] at ht
        exact ht.resolve_left (Ne.symm hc)
      by_cases hu : c.1 = u
      · have htu : t ≠ u := fun h => hc (hu.trans h.symm)
        simp [hu, htu]
      · rw [if_neg hu, if_neg hu, ih ht']

theorem tallyGet_add (c : κ × M) : tallyGet (tallyAdd l c) u = tallyGet l u + if c.1 = u then c.2 else 0 := by
  rw [tallyAdd]
  by_cases hv : c.2 = 0
  · simp [hv]
  · rw [if_neg hv]
    by_cases ht : c.1 ∈ l.map Prod.fst
    · rw [if_pos ht, tallyGet_bump ht]
    · rw [if_neg ht, tallyGet_cons]
      by_cases hu : c.1 = u
      · subst hu
        simp [tallyGet_of_not_mem ht]
      · simp [hu]

theorem tallyGet_all (l cs : List (κ × M)) (u : κ) : tallyGet (tallyAll l cs) u = tallyGet l u + tallySum cs u := by
  induction cs generalizing l with
  | nil => simp [tallyAll, tallySum]
  | cons c cs ih =>
    have hstep : tallyAll l (c :: cs) = tallyAll (tallyAdd l c) cs := rfl
    rw [hstep, ih, tallyGet_add, tallySum_cons, add_assoc]

theorem mem_keys_add (c : κ × M) :
    u ∈ (tallyAdd l c).map Prod.fst ↔ u ∈ l.map Prod.fst ∨ (c.1 = u ∧ c.2 ≠ 0) := by
  rw [tallyAdd]
  by_cases hv : c.2 = 0
  · simp [hv]
  · rw [if_neg hv]
    by_cases ht : c.1 ∈ l.map Prod.fst
    · rw [if_pos ht, tallyBump_keys]
      constructor
      · exact .inl
      · rintro (hu | ⟨rfl, -⟩)
        · exact hu
        · exact ht
    · rw [if_neg ht, map_cons, mem_cons]
      constructor
      · rintro (rfl | hu)
        · exact .inr ⟨rfl, hv⟩
        · exact .inl hu
      · rintro (hu | ⟨rfl, -⟩)
        · exact .inr hu
        · exact .inl rfl

theorem mem_keys_all (l cs : List (κ × M)) (u : κ) :
    u ∈ (tallyAll l cs).map Prod.fst ↔ u ∈ l.map Prod.fst ∨ ∃ c ∈ cs, c.1 = u ∧ c.2 ≠ 0 := by
  induction cs generalizing l with
  | nil => simp [tallyAll]
  | cons c cs ih =>
    have hstep : tallyAll l (c :: cs) = tallyAll (tallyAdd l c) cs := rfl
    rw [hstep, ih, mem_keys_add, exists_mem_cons_iff, or_assoc]

/-! ## The list as it was -/

theorem tallyAll_split (l cs : List (κ × M)) : ∃ new old, tallyAll l cs = new ++ old ∧
    old.map Prod.fst = l.map Prod.fst ∧ ∀ u ∈ l.map Prod.fst, u ∉ new.map Prod.fst := by
  induction cs using List.reverseRecOn with
  | nil => exact ⟨[], l, rfl, rfl, by simp⟩
  | append_singleton cs c ih =>
    obtain ⟨new, old, hall, hkeys, hnew⟩ := ih
    have hstep : tallyAll l (cs ++ [c]) = tallyAdd (new ++ old) c := by
      rw [← hall]
      simp only [tallyAll, foldl_append, foldl_cons, foldl_nil]
    rw [hstep, tallyAdd]
    by_cases hv : c.2 = 0
    · exact ⟨new, old, if_pos hv, hkeys, hnew⟩
    · rw [if_neg hv]
      by_cases ht : c.1 ∈ (new ++ old).map Prod.fst
      · -- the entry is in one of the two parts
        have hbump : ∀ ys : List (κ × M), tallyBump c.1 c.2 (ys ++ old) =
            if c.1 ∈ ys.map Prod.fst then tallyBump c.1 c.2 ys ++ old else ys ++ tallyBump c.1 c.2 old := by
          intro ys
          induction ys with
          | nil => simp
          | cons y ys ih =>
            rw [cons_append, tallyBump]
            by_cases hy : y.1 = c.1
            · simp [tallyBump, hy]
            · rw [if_neg hy, ih]
              have hyc : ¬ c.1 = y.1 := fun h => hy h.symm
              simp only [map_cons, mem_cons, hyc, false_or, tallyBump, if_neg hy]
              split <;> rfl
        rw [if_pos ht, hbump]
        split
        · exact ⟨_, old, rfl, hkeys, fun u hu => by rw [tallyBump_keys]; exact hnew u hu⟩
        · exact ⟨new, _, rfl, (tallyBump_keys _ _ _).trans hkeys, hnew⟩
      · rw [if_neg ht]
        refine ⟨c :: new, old, rfl, hkeys, fun u hu => ?_⟩
        rw [map_cons, mem_cons, not_or]
        refine ⟨?_, hnew u hu⟩
        rintro rfl
        refine ht ?_
        rw [map_append, mem_append, hkeys]
        exact .inr hu

theorem keys_seen (l cs : List (κ × M)) : (tallySeen l (tallyAll l cs)).map Prod.fst = l.map Prod.fst := by
  obtain ⟨new, old, hall, hkeys, -⟩ := tallyAll_split l cs
  have hlen : old.length = l.length := by
    rw [← length_map (f := Prod.fst), hkeys, length_map]
  rw [tallySeen, hall, ← hlen, length_append, Nat.add_sub_cancel, drop_left, hkeys]

theorem tallyGet_seen (l cs : List (κ × M)) (u : κ) :
    tallyGet (tallySeen l (tallyAll l cs)) u = tallyGet l u + if u ∈ l.map Prod.fst then tallySum cs u else 0 := by
  obtain ⟨new, old, hall, hkeys, hnew⟩ := tallyAll_split l cs
  have hlen : old.length = l.length := by
    rw [← length_map (f := Prod.fst), hkeys, length_map]
  have hseen : tallySeen l (tallyAll l cs) = old := by
    rw [tallySeen, hall, ← hlen, length_append, Nat.add_sub_cancel, drop_left]
  rw [hseen]
  by_cases hu : u ∈ l.map Prod.fst
  · rw [if_pos hu, ← tallyGet_all, hall, tallyGet_append_of_not_mem (hnew u hu)]
  · rw [if_neg hu, add_zero, tallyGet_of_not_mem (hkeys ▸ hu), tallyGet_of_not_mem hu]

end CServer.Lib
