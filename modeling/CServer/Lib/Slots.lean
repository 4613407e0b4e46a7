import CServer.Lib.Tally

/-! # Slots of one key each

In an array of `n` slots a free one has the key 0. An amount goes to the first slot that is free or has its key; where
there is none it is lost.
-/
namespace CServer.Lib
open List

variable {M : Type} [AddCommMonoid M]

abbrev Slots (M : Type) := ℕ → ℤ × M

def slotAdd (n : ℕ) (s : Slots M) (c : ℤ × M) : Slots M :=
  match (List.range n).find? fun y => (s y).1 = 0 ∨ (s y).1 = c.1 with
  | none => s
  | some y => Function.update s y (c.1, (s y).2 + c.2)

def slotView (l : List (ℤ × M)) : Slots M := fun y => l.getD y (0, 0)

def slotPut (l : List (ℤ × M)) (c : ℤ × M) : List (ℤ × M) :=
  if c.1 ∈ l.map Prod.fst then tallyBump c.1 c.2 l else l ++ [c]

def weighted (w : ℤ → ℕ) (l : List (ℤ × M)) : M := (l.map fun c => w c.1 • c.2).sum

variable {n : ℕ} {l : List (ℤ × M)} {c : ℤ × M}

theorem getD_tallyBump (t : ℤ) (v : M) (l : List (ℤ × M)) (y : ℕ) :
    (tallyBump t v l).getD y (0, 0) =
      if y = l.findIdx (fun c => decide (c.1 = t)) ∧ y < l.length then (t, (l.getD y (0, 0)).2 + v) else l.getD y (0, 0) := by
  induction l generalizing y with
  | nil => simp [tallyBump]
  | cons c l ih =>
    rw [tallyBump, findIdx_cons]
    by_cases hc : c.1 = t
    · rw [if_pos hc]
      cases y with
      | zero => simp [hc]
      | succ y => simp [hc]
    · rw [if_neg hc]
      cases y with
      | zero => simp [hc]
      | succ y =>
        rw [getD_cons_succ, ih]
        simp [hc]

theorem slotView_lt {y : ℕ} (hy : y < l.length) : slotView l y = l[y] := by
  simp [slotView, hy]

theorem slotView_ge {y : ℕ} (hy : l.length ≤ y) : slotView l y = (0, 0) := by
  simp [slotView, hy]

theorem slotView_entries (hkeys : ∀ a ∈ l, a.1 ≠ 0) (hn : l.length ≤ n) :
    ((List.range n).map (slotView l)).takeWhile (fun a => decide (a.1 ≠ 0)) = l := by
  have hsplit : (List.range n).map (slotView l) = l ++ List.replicate (n - l.length) (0, 0) := by
    refine ext_getElem (by simp; omega) fun y hy _ => ?_
    rw [getElem_map, getElem_range]
    by_cases hlt : y < l.length
    · rw [slotView_lt hlt, getElem_append_left hlt]
    · rw [slotView_ge (not_lt.mp hlt), getElem_append_right (not_lt.mp hlt), getElem_replicate]
  rw [hsplit, takeWhile_append_of_pos fun a ha => decide_eq_true (hkeys a ha)]
  simp

theorem slot_found (hkeys : ∀ a ∈ l, a.1 ≠ 0) (hroom : c.1 ∈ l.map Prod.fst ∨ l.length < n) (hn : l.length ≤ n) :
    (List.range n).find? (fun y => decide ((slotView l y).1 = 0 ∨ (slotView l y).1 = c.1)) =
      some (l.findIdx fun a => decide (a.1 = c.1)) := by
  have hle : l.findIdx (fun a => decide (a.1 = c.1)) ≤ l.length := findIdx_le_length
  rw [List.find?_range_eq_some]
  refine ⟨decide_eq_true ?_, mem_range.mpr ?_, fun j hj => ?_⟩
  · obtain hlt | hend := Nat.lt_or_eq_of_le hle
    · right
      rw [slotView_lt hlt]
      have hat := findIdx_getElem (w := hlt)
      exact of_decide_eq_true hat
    · left
      rw [slotView_ge hend.ge]
  · obtain hmem | hlt := hroom
    · obtain ⟨a, ha, he⟩ := mem_map.mp hmem
      exact (findIdx_lt_length_of_exists ⟨a, ha, decide_eq_true he⟩).trans_le hn
    · omega
  · rw [slotView_lt (hj.trans_le hle)]
    have hnot := of_decide_eq_false (not_of_lt_findIdx hj)
    simp [hnot, hkeys _ (getElem_mem (hj.trans_le hle))]

theorem slotAdd_view (hkeys : ∀ a ∈ l, a.1 ≠ 0) (hroom : c.1 ∈ l.map Prod.fst ∨ l.length < n) (hn : l.length ≤ n) :
    slotAdd n (slotView l) c = slotView (slotPut l c) := by
  have hmem : c.1 ∈ l.map Prod.fst ↔ l.findIdx (fun a => decide (a.1 = c.1)) < l.length := by
    rw [findIdx_lt_length, mem_map]
    simp
  rw [slotAdd, slot_found hkeys hroom hn]
  dsimp only
  funext y
  rw [slotPut, Function.update_apply]
  by_cases hin : c.1 ∈ l.map Prod.fst
  · rw [if_pos hin, show slotView (tallyBump c.1 c.2 l) y = (tallyBump c.1 c.2 l).getD y (0, 0) from rfl, getD_tallyBump]
    by_cases hy : y = l.findIdx fun a => decide (a.1 = c.1)
    · rw [if_pos hy, if_pos ⟨hy, hy ▸ hmem.mp hin⟩, hy]
      rfl
    · rw [if_neg hy, if_neg fun h => hy h.1]
      rfl
  · rw [if_neg hin]
    have hend : l.findIdx (fun a => decide (a.1 = c.1)) = l.length :=
      le_antisymm findIdx_le_length (not_lt.mp (mt hmem.mpr hin))
    rw [hend]
    by_cases hy : y = l.length
    · rw [if_pos hy, slotView_ge le_rfl, hy, slotView]
      simp
    · rw [if_neg hy]
      obtain hlt | hgt := Nat.lt_or_gt_of_ne hy
      · simp [slotView, hlt, List.getElem?_append_left]
      · rw [slotView_ge hgt.le, slotView_ge (by rw [length_append]; exact hgt)]

structure SlotsHold (n : ℕ) (keys : Finset ℤ) (l : List (ℤ × M)) : Prop where
  nodup : (l.map Prod.fst).Nodup
  within : ∀ a ∈ l, a.1 ∈ keys
  free : (0 : ℤ) ∉ keys
  fits : keys.card ≤ n

theorem slotPut_keys (l : List (ℤ × M)) (c : ℤ × M) :
    (slotPut l c).map Prod.fst = if c.1 ∈ l.map Prod.fst then l.map Prod.fst else l.map Prod.fst ++ [c.1] := by
  rw [slotPut]
  split
  · exact tallyBump_keys c.1 c.2 l
  · exact map_append

omit [AddCommMonoid M] in
theorem SlotsHold.keys_subset {keys : Finset ℤ} (h : SlotsHold n keys l) : (l.map Prod.fst).toFinset ⊆ keys := by
  intro k hk
  obtain ⟨a, ha, rfl⟩ := mem_map.mp (mem_toFinset.mp hk)
  exact h.within a ha

omit [AddCommMonoid M] in
theorem SlotsHold.length_eq {keys : Finset ℤ} (h : SlotsHold n keys l) : l.length = (l.map Prod.fst).toFinset.card := by
  rw [toFinset_card_of_nodup h.nodup, length_map]

omit [AddCommMonoid M] in
theorem SlotsHold.length_le {keys : Finset ℤ} (h : SlotsHold n keys l) : l.length ≤ n := by
  rw [h.length_eq]
  exact (Finset.card_le_card h.keys_subset).trans h.fits

theorem SlotsHold.put {keys : Finset ℤ} (h : SlotsHold n keys l) (hc : c.1 ∈ keys) :
    SlotsHold n keys (slotPut l c) ∧ slotAdd n (slotView l) c = slotView (slotPut l c) := by
  have hsubset := h.keys_subset
  refine ⟨⟨?_, fun a ha => ?_, h.free, h.fits⟩, ?_⟩
  · rw [slotPut_keys]
    split
    · exact h.nodup
    · next hnew =>
      rw [nodup_append]
      refine ⟨h.nodup, nodup_singleton _, fun k hk k' hk' he => hnew ?_⟩
      rw [← mem_singleton.mp hk', ← he]
      exact hk
  · have hkey := mem_map_of_mem (f := Prod.fst) ha
    rw [slotPut_keys] at hkey
    split at hkey
    · exact hsubset (mem_toFinset.mpr hkey)
    · obtain hkey | hkey := mem_append.mp hkey
      · exact hsubset (mem_toFinset.mpr hkey)
      · rw [mem_singleton.mp hkey]
        exact hc
  · refine slotAdd_view (fun a ha h0 => h.free (h0 ▸ h.within a ha)) ?_ ?_
    · by_cases hin : c.1 ∈ l.map Prod.fst
      · exact .inl hin
      · right
        have hstrict : (l.map Prod.fst).toFinset ⊂ keys :=
          Finset.ssubset_iff_subset_ne.mpr ⟨hsubset, fun he => hin (mem_toFinset.mp (he ▸ hc))⟩
        rw [h.length_eq]
        exact (Finset.card_lt_card hstrict).trans_le h.fits
    · exact h.length_le

theorem slotAdds_view {keys : Finset ℤ} (h : SlotsHold n keys l) {cs : List (ℤ × M)} (hcs : ∀ c ∈ cs, c.1 ∈ keys) :
    SlotsHold n keys (cs.foldl slotPut l) ∧ cs.foldl (slotAdd n) (slotView l) = slotView (cs.foldl slotPut l) := by
  induction cs generalizing l with
  | nil => exact ⟨h, rfl⟩
  | cons c cs ih =>
    obtain ⟨hc, hrest⟩ := forall_mem_cons.mp hcs
    obtain ⟨hput, hview⟩ := h.put hc
    rw [foldl_cons, foldl_cons, hview]
    exact ih hput hrest

/-! ## Sums over the slots -/

theorem weighted_append (w : ℤ → ℕ) (l l' : List (ℤ × M)) : weighted w (l ++ l') = weighted w l + weighted w l' := by
  simp [weighted]

theorem weighted_bump (w : ℤ → ℕ) {t : ℤ} (v : M) (ht : t ∈ l.map Prod.fst) :
    weighted w (tallyBump t v l) = weighted w l + w t • v := by
  induction l with
  | nil => exact absurd ht not_mem_nil
  | cons a l ih =>
    rw [tallyBump]
    by_cases ha : a.1 = t
    · rw [if_pos ha]
      simp only [weighted, map_cons, sum_cons, ha, smul_add]
      rw [add_right_comm]
    · rw [if_neg ha]
      have hrest := ih ((mem_cons.mp ht).resolve_left (Ne.symm ha))
      simp only [weighted, map_cons, sum_cons] at hrest ⊢
      rw [hrest, add_assoc]

theorem weighted_puts (w : ℤ → ℕ) (l cs : List (ℤ × M)) : weighted w (cs.foldl slotPut l) = weighted w l + weighted w cs := by
  induction cs generalizing l with
  | nil => simp [weighted]
  | cons c cs ih =>
    have hput : weighted w (slotPut l c) = weighted w l + w c.1 • c.2 := by
      rw [slotPut]
      split
      · next hin => exact weighted_bump w c.2 hin
      · rw [weighted_append]
        simp [weighted]
    rw [foldl_cons, ih, hput, add_assoc]
    simp [weighted]

end CServer.Lib
