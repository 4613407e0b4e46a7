import Mathlib.Tactic

/-! # Lists of records under distinct keys

A list whose entries have distinct keys, as a table: `lookup` finds the entry of a key, `adjust`
changes it in place, `discard` takes it out, a new entry goes to the end. `sumOf w` adds up a weight over the entries.
-/
namespace CServer.Lib
open List hiding lookup

variable {α κ : Type} [DecidableEq κ] (key : α → κ)

def lookup (k : κ) (l : List α) : Option α := l.find? fun a => key a = k

def adjust (k : κ) (f : α → α) (l : List α) : List α := l.map fun a => if key a = k then f a else a

def discard (k : κ) (l : List α) : List α := l.filter fun a => key a ≠ k

def DistinctKeys (l : List α) : Prop := (l.map key).Nodup

def sumOf (w : α → ℤ) (l : List α) : ℤ := (l.map w).sum

variable {key}

variable {k : κ}

variable {l : List α}

theorem lookup_some {a : α} (h : lookup key k l = some a) : a ∈ l ∧ key a = k :=
  ⟨List.mem_of_find?_eq_some h, by simpa using List.find?_some h⟩

theorem lookup_none : lookup key k l = none ↔ ∀ a ∈ l, key a ≠ k := by
  simp [lookup]

theorem lookup_of_mem (hu : DistinctKeys key l) {a : α} (ha : a ∈ l) : lookup key (key a) l = some a := by
  induction l with
  | nil => simp at ha
  | cons b l ih =>
    have hu' := nodup_cons.mp hu
    by_cases hb : key b = key a
    · have hab : a = b := by
        rcases mem_cons.mp ha with rfl | ha
        · rfl
        · exact absurd (mem_map.mpr ⟨a, ha, hb.symm⟩) hu'.1
      rw [lookup, List.find?_cons, hab]
      simp
    · have ha' : a ∈ l := by
        rcases mem_cons.mp ha with rfl | ha
        · exact absurd rfl hb
        · exact ha
      rw [lookup, List.find?_cons]
      simp only [hb, decide_false]
      exact ih hu'.2 ha'

theorem adjust_absent {f : α → α} {l : List α} (h : ∀ a ∈ l, key a ≠ k) : adjust key k f l = l := by
  unfold adjust
  apply map_congr_left (g := id) _ |>.trans (map_id l)
  intro a ha
  simp [h a ha]

theorem adjust_self (hu : DistinctKeys key l) {a : α} (ha : a ∈ l) :
    adjust key (key a) (fun _ => a) l = l := by
  have hid : adjust key (key a) (fun _ => a) l = l.map id := by
    apply map_congr_left
    intro b hb
    split
    · next he => exact (inj_on_of_nodup_map hu hb ha he).symm
    · rfl
  rw [hid, map_id]

theorem keys_adjust {f : α → α} (hf : ∀ a, key (f a) = key a) (l : List α) :
    (adjust key k f l).map key = l.map key := by
  rw [adjust, map_map]
  apply map_congr_left
  intro a _
  simp only [Function.comp_apply]
  split
  · exact hf a
  · rfl

theorem DistinctKeys.adjust {k : κ} {f : α → α} (hf : ∀ a, key (f a) = key a) {l : List α} (h : DistinctKeys key l) :
    DistinctKeys key (adjust key k f l) := by
  rw [DistinctKeys, keys_adjust hf]
  exact h

theorem mem_discard {a : α} : a ∈ discard key k l ↔ a ∈ l ∧ key a ≠ k := by
  simp [discard]

theorem DistinctKeys.discard {l : List α} (h : DistinctKeys key l) (k : κ) : DistinctKeys key (discard key k l) :=
  Nodup.sublist (filter_sublist.map key) h

theorem mem_adjust {f : α → α} {l : List α} (hu : DistinctKeys key l) {a : α} (ha : lookup key k l = some a)
    {b : α} : b ∈ adjust key k f l ↔ b = f a ∨ b ∈ l ∧ key b ≠ k := by
  obtain ⟨hmem, rfl⟩ := lookup_some ha
  constructor
  · intro hb
    obtain ⟨c, hc, rfl⟩ := mem_map.mp hb
    split
    · next he =>
      left
      rw [inj_on_of_nodup_map hu hc hmem he]
    · next he => exact .inr ⟨hc, he⟩
  · intro hb
    rcases hb with rfl | ⟨hb, hne⟩
    · exact mem_map.mpr ⟨a, hmem, if_pos rfl⟩
    · exact mem_map.mpr ⟨b, hb, if_neg hne⟩

theorem DistinctKeys.snoc (h : DistinctKeys key l) {a : α} (ha : lookup key (key a) l = none) :
    DistinctKeys key (l ++ [a]) := by
  rw [DistinctKeys, map_append, map_singleton]
  apply Nodup.append h (nodup_singleton _)
  intro k hk hk'
  obtain ⟨b, hb, rfl⟩ := mem_map.mp hk
  exact lookup_none.mp ha b hb (mem_singleton.mp hk')

theorem lookup_adjust {k k' : κ} {f : α → α} (hf : ∀ a, key a = k → key (f a) = k) (l : List α) :
    lookup key k' (adjust key k f l) = if k' = k then (lookup key k l).map f else lookup key k' l := by
  induction l with
  | nil => simp [lookup, adjust]
  | cons a l ih =>
    simp only [lookup, adjust, map_cons, List.find?_cons] at ih ⊢
    by_cases ha : key a = k
    · by_cases hk : k' = k
      · subst hk
        simp [ha, hf]
      · have hne : ¬ key a = k' := fun h => hk (h.symm.trans ha)
        simpa [ha, hf, hk, hne, Ne.symm hk] using ih
    · by_cases hk : k' = k
      · subst hk
        simpa [ha] using ih
      · by_cases ha' : key a = k'
        · simp [ha', hk]
        · simpa [ha, ha', hk] using ih

theorem lookup_snoc {a : α} :
    lookup key k (l ++ [a]) = (lookup key k l).or (if key a = k then some a else none) := by
  rw [lookup, List.find?_append, lookup]
  simp only [List.find?_singleton, decide_eq_true_eq]

theorem sumOf_nil (w : α → ℤ) : sumOf w [] = 0 := rfl

theorem sumOf_cons (w : α → ℤ) (a : α) (l : List α) : sumOf w (a :: l) = w a + sumOf w l := by
  rw [sumOf, map_cons, sum_cons, sumOf]

theorem sumOf_snoc (w : α → ℤ) (l : List α) (a : α) : sumOf w (l ++ [a]) = sumOf w l + w a := by
  simp only [sumOf, map_append, map_singleton, sum_append, sum_singleton]

theorem sumOf_nonneg {w : α → ℤ} {l : List α} (h : ∀ a ∈ l, 0 ≤ w a) : 0 ≤ sumOf w l := by
  induction l with
  | nil => exact le_refl 0
  | cons a l ih =>
    rw [sumOf_cons]
    have h1 := h a mem_cons_self
    have h2 := ih fun b hb => h b (mem_cons_of_mem a hb)
    omega

theorem sumOf_adjust {f : α → α} {l : List α} {a : α} (hu : DistinctKeys key l) (ha : lookup key k l = some a)
    (w : α → ℤ) : sumOf w (adjust key k f l) = sumOf w l + (w (f a) - w a) := by
  induction l with
  | nil => simp [lookup] at ha
  | cons b l ih =>
    have hu' := nodup_cons.mp hu
    rw [lookup, List.find?_cons] at ha
    by_cases hb : key b = k
    · simp only [hb, decide_true] at ha
      obtain rfl : b = a := Option.some.inj ha
      have hrest : ∀ c ∈ l, key c ≠ k := by
        intro c hc he
        exact hu'.1 (mem_map.mpr ⟨c, hc, he.trans hb.symm⟩)
      have hm : adjust key k f (b :: l) = f b :: l := by
        have hl := @adjust_absent _ _ _ key k f l hrest
        rw [adjust] at hl
        simp only [adjust, map_cons, hb, if_true, hl]
      rw [hm, sumOf_cons, sumOf_cons]
      ring
    · simp only [hb, decide_false] at ha
      have hi := ih hu'.2 ha
      have hm : adjust key k f (b :: l) = b :: adjust key k f l := by
        simp only [adjust, map_cons, hb, if_false]
      rw [hm, sumOf_cons, sumOf_cons, hi]
      ring

end CServer.Lib
