import Mathlib.Data.Finmap
import Mathlib.Tactic

/-! # Tables with numbers as keys that are used as arrays

A table maps some natural numbers to values; putting `none` takes a key away. `Lists t xs` says that the table is an array
without gaps: `xs` at the keys from 1 on, and nothing else.
-/
namespace CServer.Lib
open List

variable {α : Type}

abbrev LuaArray (α : Type) := Finmap fun _ : ℕ => α

namespace LuaArray

def get (t : LuaArray α) (i : ℕ) : Option α := t.lookup i

def put (t : LuaArray α) (i : ℕ) : Option α → LuaArray α
  | none => t.erase i
  | some x => t.insert i x

def maxn (t : LuaArray α) : ℕ := t.keys.sup id

def valuesFrom (t : LuaArray α) : ℕ → ℕ → List α
  | 0, _ => []
  | fuel + 1, i =>
    match t.get i with
    | none => []
    | some x => x :: t.valuesFrom fuel (i + 1)

def ipairs (t : LuaArray α) : List α := t.valuesFrom t.maxn 1

def len (t : LuaArray α) : ℕ := t.ipairs.length

def insertLast (t : LuaArray α) (x : α) : LuaArray α := t.put (t.len + 1) (some x)

def closeGap : ℕ → ℕ → LuaArray α → LuaArray α
  | 0, _, t => t
  | n + 1, i, t => closeGap n (i + 1) (t.put i (t.get (i + 1)))

def removeAt (t : LuaArray α) (i : ℕ) : LuaArray α :=
  if 1 ≤ i ∧ i ≤ t.len then (closeGap (t.len - i) i t).put t.len none else t

/-- From key `i` downwards each value is moved up by one, up to the first one that `stop` holds of; `x` goes behind it. -/
def slideDown (stop : α → Bool) (x : α) : ℕ → LuaArray α → LuaArray α
  | 0, t => t
  | i + 1, t =>
    match t.get i with
    | none => t.put (i + 1) (some x)
    | some y => if stop y then t.put (i + 1) (some x) else slideDown stop x i (t.put (i + 1) (some y))

theorem get_put (t : LuaArray α) (i j : ℕ) (x : Option α) : (t.put i x).get j = if j = i then x else t.get j := by
  by_cases h : j = i
  · subst h
    rw [if_pos rfl]
    cases x with
    | none => exact Finmap.lookup_erase j t
    | some y => exact Finmap.lookup_insert t
  · rw [if_neg h]
    cases x with
    | none => exact Finmap.lookup_erase_ne h
    | some y => exact Finmap.lookup_insert_of_ne t h

@[simp] theorem get_empty (i : ℕ) : (∅ : LuaArray α).get i = none := Finmap.lookup_empty i

theorem get_isSome_iff {t : LuaArray α} {i : ℕ} : (t.get i).isSome ↔ i ∈ t.keys :=
  Finmap.lookup_isSome.trans Finmap.mem_keys.symm

def Lists (t : LuaArray α) (xs : List α) : Prop := t.get 0 = none ∧ ∀ i, t.get (i + 1) = xs[i]?

variable {t : LuaArray α} {xs pre post : List α} {x y : α}

theorem lists_empty : Lists (∅ : LuaArray α) [] := ⟨get_empty 0, fun i => by simp⟩

theorem Lists.maxn (h : Lists t xs) : t.maxn = xs.length := by
  apply le_antisymm
  · refine Finset.sup_le fun i hi => ?_
    cases i with
    | zero => exact Nat.zero_le _
    | succ i =>
      have hsome := get_isSome_iff.mpr hi
      rw [h.2 i] at hsome
      simpa using hsome
  · cases hn : xs.length with
    | zero => exact Nat.zero_le _
    | succ n =>
      have hmem : n + 1 ∈ t.keys := by
        rw [← get_isSome_iff, h.2 n]
        simp [hn]
      exact Finset.le_sup (f := id) hmem

theorem Lists.get_at (h : Lists t (pre ++ y :: post)) : t.get (pre.length + 1) = some y := by
  rw [h.2, List.getElem?_append_right (le_refl _), Nat.sub_self]
  rfl

theorem Lists.get_next (h : Lists t (pre ++ y :: post)) : t.get (pre.length + 2) = post.head? := by
  rw [show pre.length + 2 = (pre.length + 1) + 1 from rfl, h.2, List.getElem?_append_right (by omega),
    show pre.length + 1 - pre.length = 1 by omega]
  cases post <;> rfl

theorem Lists.put_at (h : Lists t (pre ++ y :: post)) (x : α) :
    Lists (t.put (pre.length + 1) (some x)) (pre ++ x :: post) := by
  refine ⟨?_, fun i => ?_⟩
  · rw [get_put, if_neg (by omega)]
    exact h.1
  · rw [get_put, h.2 i]
    rcases Nat.lt_trichotomy i pre.length with hi | hi | hi
    · rw [if_neg (by omega), List.getElem?_append_left hi, List.getElem?_append_left hi]
    · rw [if_pos (by omega), hi, List.getElem?_append_right (le_refl _), Nat.sub_self]
      rfl
    · obtain ⟨k, rfl⟩ : ∃ k, i = pre.length + (k + 1) := ⟨i - pre.length - 1, by omega⟩
      have hk : pre.length + (k + 1) - pre.length = k + 1 := by omega
      rw [if_neg (by omega), List.getElem?_append_right (by omega), List.getElem?_append_right (by omega), hk]
      rfl

theorem Lists.push (h : Lists t xs) (x : α) : Lists (t.put (xs.length + 1) (some x)) (xs ++ [x]) := by
  refine ⟨?_, fun i => ?_⟩
  · rw [get_put, if_neg (by omega)]
    exact h.1
  · rw [get_put, h.2 i]
    rcases Nat.lt_trichotomy i xs.length with hi | hi | hi
    · rw [if_neg (by omega), List.getElem?_append_left hi]
    · rw [if_pos (by omega), hi, List.getElem?_append_right (le_refl _), Nat.sub_self]
      rfl
    · have hnone : ((xs ++ [x])[i]? : Option α) = none := List.getElem?_eq_none (by simp; omega)
      rw [if_neg (by omega), List.getElem?_eq_none (by omega), hnone]

theorem Lists.pop (h : Lists t (xs ++ [y])) : Lists (t.put (xs.length + 1) none) xs := by
  refine ⟨?_, fun i => ?_⟩
  · rw [get_put, if_neg (by omega)]
    exact h.1
  · rw [get_put, h.2 i]
    rcases Nat.lt_trichotomy i xs.length with hi | hi | hi
    · rw [if_neg (by omega), List.getElem?_append_left hi]
    · rw [if_pos (by omega), List.getElem?_eq_none (by omega)]
    · have hnone : ((xs ++ [y])[i]? : Option α) = none := List.getElem?_eq_none (by simp; omega)
      rw [if_neg (by omega), hnone, List.getElem?_eq_none (by omega)]

theorem Lists.valuesFrom (h : Lists t (pre ++ post)) : t.valuesFrom post.length (pre.length + 1) = post := by
  induction post generalizing pre with
  | nil => rfl
  | cons y post ih =>
    have hstep := @ih (pre ++ [y]) (by rw [append_assoc]; exact h)
    rw [length_append, length_singleton] at hstep
    rw [length_cons, LuaArray.valuesFrom, h.get_at]
    simp only [hstep]

theorem Lists.ipairs (h : Lists t xs) : t.ipairs = xs := by
  unfold LuaArray.ipairs
  rw [h.maxn]
  exact Lists.valuesFrom (show Lists t ([] ++ xs) from h)

theorem Lists.len (h : Lists t xs) : t.len = xs.length := by
  rw [LuaArray.len, h.ipairs]

theorem Lists.closeGap (post : List α) :
    ∀ {t : LuaArray α} {pre : List α} {y : α}, Lists t (pre ++ y :: post) →
      Lists ((closeGap post.length (pre.length + 1) t).put (pre.length + post.length + 1) none) (pre ++ post) := by
  induction post with
  | nil =>
    intro t pre y h
    rw [append_nil]
    exact h.pop
  | cons z post ih =>
    intro t pre y h
    have hnext : t.get (pre.length + 1 + 1) = some z := h.get_next
    have hstep : Lists (t.put (pre.length + 1) (some z)) ((pre ++ [z]) ++ z :: post) := by
      rw [append_assoc]
      exact h.put_at z
    have hrest := ih hstep
    have he : (pre ++ [z]).length = pre.length + 1 := by simp
    have he' : pre.length + 1 + post.length + 1 = pre.length + (z :: post).length + 1 := by
      rw [length_cons]
      omega
    rw [he, he', append_assoc] at hrest
    rw [length_cons, LuaArray.closeGap, hnext]
    exact hrest

theorem Lists.removeAt (h : Lists t (pre ++ y :: post)) : Lists (t.removeAt (pre.length + 1)) (pre ++ post) := by
  have hlen : t.len = pre.length + post.length + 1 := by
    rw [h.len, length_append, length_cons]
    omega
  have hcount : pre.length + post.length + 1 - (pre.length + 1) = post.length := by omega
  rw [LuaArray.removeAt, hlen, if_pos (by omega), hcount]
  exact Lists.closeGap post h

theorem put_put (t : LuaArray α) (i : ℕ) (x y : α) : (t.put i (some x)).put i (some y) = t.put i (some y) :=
  Finmap.insert_insert t

theorem slideDown_put (stop : α → Bool) (x z : α) (i : ℕ) (t : LuaArray α) :
    slideDown stop x (i + 1) (t.put (i + 1) (some z)) = slideDown stop x (i + 1) t := by
  have hget : (t.put (i + 1) (some z)).get i = t.get i := by rw [get_put, if_neg (by omega)]
  rw [slideDown, slideDown, hget]
  cases t.get i with
  | none => exact put_put t (i + 1) z x
  | some y => simp only [put_put]

theorem Lists.slideDown (stop : α → Bool) (x : α) (pre : List α) :
    ∀ {t : LuaArray α} {post : List α} {y : α}, Lists t (pre ++ y :: post) →
      ∃ front back, pre = front ++ back ∧ (∀ z ∈ back, stop z = false) ∧ (∀ z ∈ front.getLast?, stop z = true) ∧
        Lists (slideDown stop x (pre.length + 1) t) (front ++ x :: (back ++ post)) := by
  induction pre using List.reverseRecOn with
  | nil =>
    intro t post y h
    have hslide : LuaArray.slideDown stop x 1 t = t.put 1 (some x) := by rw [LuaArray.slideDown, h.1]
    refine ⟨[], [], rfl, by simp, by simp, ?_⟩
    rw [length_nil, hslide]
    exact h.put_at x
  | append_singleton pre z ih =>
    intro t post y h
    have hlists := h
    rw [append_assoc] at hlists
    have hbelow : t.get (pre ++ [z]).length = some z := by
      rw [length_append, length_singleton]
      exact hlists.get_at
    by_cases hz : stop z = true
    · have hslide : LuaArray.slideDown stop x ((pre ++ [z]).length + 1) t = t.put ((pre ++ [z]).length + 1) (some x) := by
        rw [LuaArray.slideDown, hbelow]
        exact if_pos hz
      refine ⟨pre ++ [z], [], by simp, by simp, by simpa using hz, ?_⟩
      rw [hslide]
      exact h.put_at x
    · have hslide : LuaArray.slideDown stop x ((pre ++ [z]).length + 1) t =
          LuaArray.slideDown stop x (pre.length + 1) (t.put ((pre ++ [z]).length + 1) (some z)) := by
        rw [LuaArray.slideDown, hbelow]
        simp only [length_append, length_singleton]
        exact if_neg hz
      have hput := h.put_at z
      rw [append_assoc] at hput
      obtain ⟨front, back, hpre, hback, hfront, hlists'⟩ := ih hput
      refine ⟨front, back ++ [z], by rw [hpre, append_assoc], ?_, hfront, ?_⟩
      · intro c hc
        rcases mem_append.mp hc with hc | hc
        · exact hback c hc
        · rw [mem_singleton.mp hc]
          exact Bool.eq_false_iff.mpr hz
      · rw [hslide]
        simpa using hlists'

/-! ## Sorted arrays -/

/-- In a sorted list the value has been carried to its place if the last one that stops it is the last one that is less. -/
theorem stopped_split {K : Type} [LinearOrder K] {key : α → K} {k : K} {front back : List α} {stop : α → Bool}
    (hsorted : (front ++ back).Pairwise fun x y => key x < key y) (hne : ∀ z ∈ front ++ back, key z ≠ k)
    (hback : ∀ z ∈ back, stop z = false) (hfront : ∀ z ∈ front.getLast?, stop z = true)
    (hjudged : ((front ++ back).filter stop).getLast? = ((front ++ back).filter fun z => decide (key z < k)).getLast?) :
    (∀ z ∈ front, key z < k) ∧ ∀ z ∈ back, k < key z := by
  have hstop : ((front ++ back).filter stop).getLast? = front.getLast? := by
    have hnil : back.filter stop = [] := filter_eq_nil_iff.mpr fun z hz => by simp [hback z hz]
    rw [filter_append, hnil, append_nil]
    rcases eq_nil_or_concat front with rfl | ⟨fs, f, rfl⟩
    · rfl
    · have hf : stop f = true := hfront f (by simp)
      rw [concat_eq_append, filter_append, filter_cons_of_pos hf, filter_nil, List.getLast?_concat,
        List.getLast?_concat]
  rw [hstop, filter_append] at hjudged
  obtain ⟨hs1, hs2, hs3⟩ := pairwise_append.mp hsorted
  -- the last one that is less is not behind
  have hnone : back.filter (fun z => decide (key z < k)) = [] := by
    rcases eq_nil_or_concat (back.filter fun z => decide (key z < k)) with hnil | ⟨ws, w, hw⟩
    · exact hnil
    · rw [hw, concat_eq_append, ← append_assoc, List.getLast?_concat] at hjudged
      have hmem : w ∈ back := (mem_filter.mp (hw ▸ by simp : w ∈ back.filter fun z => decide (key z < k))).1
      exact absurd (hs3 w (List.mem_of_getLast? hjudged) w hmem) (lt_irrefl _)
  constructor
  · rw [hnone, append_nil] at hjudged
    rcases eq_nil_or_concat front with rfl | ⟨fs, f, rfl⟩
    · exact nofun
    · rw [concat_eq_append] at hs1 hjudged ⊢
      rw [List.getLast?_concat] at hjudged
      have hf : key f < k := by simpa using (mem_filter.mp (List.mem_of_getLast? hjudged.symm)).2
      intro z hz
      rcases mem_append.mp hz with hz | hz
      · exact ((pairwise_append.mp hs1).2.2 z hz f mem_cons_self).trans hf
      · rw [mem_singleton.mp hz]
        exact hf
  · intro z hz
    have hnot : ¬ key z < k := by
      intro hlt
      have hin : z ∈ back.filter fun z => decide (key z < k) := mem_filter.mpr ⟨hz, decide_eq_true hlt⟩
      rw [hnone] at hin
      exact nomatch hin
    exact lt_of_le_of_ne (not_lt.mp hnot) (hne z (mem_append_right _ hz)).symm

end LuaArray

theorem pairwise_between {R : α → α → Prop} {xs ys : List α} {a : α} (h : (xs ++ ys).Pairwise R) (hxs : ∀ x ∈ xs, R x a)
    (hys : ∀ y ∈ ys, R a y) : (xs ++ a :: ys).Pairwise R := by
  obtain ⟨h1, h2, h3⟩ := pairwise_append.mp h
  refine pairwise_append.mpr ⟨h1, pairwise_cons.mpr ⟨hys, h2⟩, fun x hx y hy => ?_⟩
  rcases mem_cons.mp hy with rfl | hy
  · exact hxs x hx
  · exact h3 x hx y hy

end CServer.Lib
