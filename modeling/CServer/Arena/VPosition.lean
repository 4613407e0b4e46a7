import Mathlib.Data.Finset.Insert
import Mathlib.Tactic.SplitIfs

/-! # Who watches whom on the ladder

`arena/VPosition.lua`: tables for the first 12000 positions, formulas behind them. The order in which `pairs` goes
through the watchers is left open.
-/
namespace CServer.Arena
open Function

def getSkip (pos : ℤ) : ℤ :=
  if pos ≤ 50 then 1
  else if pos ≤ 100 then 2
  else if pos ≤ 200 then 5
  else if pos ≤ 500 then 10
  else if pos ≤ 1000 then 20
  else if pos ≤ 5000 then 50
  else if pos ≤ 10000 then 100
  else 200

def getNeighborPosList (pos : ℤ) : List ℤ :=
  if pos ≤ 5 then [1, 2, 3, 4, 5, 6, 7, 8]
  else
    let skip := getSkip pos
    [5, 4, 3, 2, 1].map (fun i => pos - i * skip) ++ pos :: [1, 2].map (fun i => pos + i * skip)

structure Relation where
  watch : List ℤ
  watcher : Finset ℤ

variable (relation : ℤ → Option Relation)

def getRelation (pos : ℤ) : Relation := (relation pos).getD ⟨[], ∅⟩

def addWatcher (pos : ℤ) (relation : ℤ → Option Relation) (wpos : ℤ) : ℤ → Option Relation :=
  if pos = wpos then relation
  else
    let nr := getRelation relation wpos
    update relation wpos (some { nr with watcher := insert pos nr.watcher })

/-- One turn of the first loop. -/
def relate (pos : ℤ) : ℤ → Option Relation :=
  let watch := getNeighborPosList pos
  watch.foldl (addWatcher pos) (update relation pos (some { getRelation relation pos with watch := watch }))

/-- The positions from 1 to `n`, one after another. -/
def relations : ℕ → ℤ → Option Relation
  | 0 => fun _ => none
  | n + 1 => relate (relations n) (n + 1)

/-- A position without an entry is a nil that is indexed. -/
def getWatcher (pos : ℤ) : Option (Finset ℤ) :=
  if pos > 11000 then some {pos - 400, pos - 200, pos + 200, pos + 400, pos + 600, pos + 800, pos + 1000}
  else (relations 12000 pos).map (·.watcher)

def getNeighbor (pos : ℤ) : Option (List ℤ) :=
  if pos > 12000 then some [pos - 1000, pos - 800, pos - 600, pos - 400, pos - 200, pos, pos + 200, pos + 400]
  else (relations 12000 pos).map (·.watch)

/-! ## The tables -/

theorem addWatcher_fold (pos : ℤ) (ws : List ℤ) (relation : ℤ → Option Relation) (w : ℤ) :
    (getRelation (ws.foldl (addWatcher pos) relation) w).watch = (getRelation relation w).watch ∧
      (∀ q, q ∈ (getRelation (ws.foldl (addWatcher pos) relation) w).watcher ↔
        q = pos ∧ w ∈ ws ∧ w ≠ pos ∨ q ∈ (getRelation relation w).watcher) ∧
      (relation w ≠ none → ws.foldl (addWatcher pos) relation w ≠ none) := by
  induction ws generalizing relation with
  | nil => simp
  | cons x ws ih =>
    rw [List.foldl_cons]
    obtain ⟨hwatch, hwatcher, hthere⟩ := ih (addWatcher pos relation x)
    unfold addWatcher at hwatch hwatcher hthere ⊢
    by_cases hx : pos = x
    · simp only [if_pos hx] at hwatch hwatcher hthere ⊢
      refine ⟨hwatch, fun q => ?_, hthere⟩
      rw [hwatcher]
      grind
    · simp only [if_neg hx] at hwatch hwatcher hthere ⊢
      by_cases hw : w = x
      · subst hw
        simp only [getRelation, update_self] at hwatch hwatcher hthere ⊢
        refine ⟨hwatch, fun q => ?_, fun _ => hthere (by simp)⟩
        rw [hwatcher]
        grind
      · simp only [getRelation, update_of_ne hw] at hwatch hwatcher hthere ⊢
        refine ⟨hwatch, fun q => ?_, hthere⟩
        rw [hwatcher]
        grind

theorem relate_spec (pos w : ℤ) :
    (getRelation (relate relation pos) w).watch = (if w = pos then getNeighborPosList pos else (getRelation relation w).watch) ∧
      (∀ q, q ∈ (getRelation (relate relation pos) w).watcher ↔
        q = pos ∧ w ∈ getNeighborPosList pos ∧ w ≠ pos ∨ q ∈ (getRelation relation w).watcher) ∧
      (w = pos ∨ relation w ≠ none → relate relation pos w ≠ none) := by
  obtain ⟨hwatch, hwatcher, hthere⟩ := addWatcher_fold pos (getNeighborPosList pos)
    (update relation pos (some { getRelation relation pos with watch := getNeighborPosList pos })) w
  unfold relate
  by_cases hw : w = pos
  · subst hw
    simp only [getRelation, update_self, if_true] at hwatch hwatcher hthere ⊢
    exact ⟨hwatch, hwatcher, fun _ => hthere (by simp)⟩
  · simp only [getRelation, update_of_ne hw, if_neg hw] at hwatch hwatcher hthere ⊢
    exact ⟨hwatch, hwatcher, fun h => hthere (h.resolve_left hw)⟩

theorem relations_spec (n : ℕ) (w : ℤ) :
    (1 ≤ w ∧ w ≤ n → relations n w ≠ none ∧ (getRelation (relations n) w).watch = getNeighborPosList w) ∧
      ∀ q, q ∈ (getRelation (relations n) w).watcher ↔ (1 ≤ q ∧ q ≤ n) ∧ w ∈ getNeighborPosList q ∧ w ≠ q := by
  induction n with
  | zero =>
    refine ⟨fun h => by omega, fun q => ?_⟩
    simp only [relations, getRelation, Option.getD_none]
    grind
  | succ n ih =>
    obtain ⟨hwatch, hwatcher, hthere⟩ := relate_spec (relations n) (n + 1) w
    rw [relations, hwatch]
    refine ⟨fun h => ?_, fun q => ?_⟩
    · by_cases hw : w = n + 1
      · rw [if_pos hw, hw]
        exact ⟨hw ▸ hthere (.inl hw), rfl⟩
      · rw [if_neg hw]
        have hold := ih.1 ⟨h.1, by omega⟩
        exact ⟨hthere (.inr hold.1), hold.2⟩
    · rw [hwatcher, ih.2]
      push_cast
      grind

/-! ## Watchers and neighbours -/

theorem getWatcher_of_le {w : ℤ} (hw : 1 ≤ w ∧ w ≤ 11000) : ∃ watcher, getWatcher w = some watcher ∧
    ∀ p, p ∈ watcher ↔ (1 ≤ p ∧ p ≤ 12000) ∧ w ∈ getNeighborPosList p ∧ w ≠ p := by
  obtain ⟨hthere, hwatcher⟩ := relations_spec 12000 w
  obtain ⟨r, hr⟩ := Option.ne_none_iff_exists'.mp (hthere ⟨hw.1, by omega⟩).1
  rw [getRelation, hr] at hwatcher
  refine ⟨r.watcher, ?_, hwatcher⟩
  rw [getWatcher, if_neg (by omega), hr, Option.map_some]

theorem getSkip_far {p : ℤ} (hp : 10000 < p) : getSkip p = 200 := by
  unfold getSkip
  split_ifs <;> omega

theorem getNeighbor_eq {p : ℤ} (hp : 1 ≤ p) : getNeighbor p = some (getNeighborPosList p) := by
  unfold getNeighbor
  split_ifs with h
  · rw [getNeighborPosList, if_neg (by omega), getSkip_far (by omega)]
    simp
  · obtain ⟨hne, hwatch⟩ := (relations_spec 12000 p).1 ⟨hp, by omega⟩
    obtain ⟨r, hr⟩ := Option.ne_none_iff_exists'.mp hne
    rw [getRelation, hr] at hwatch
    rw [hr, Option.map_some, ← hwatch]
    rfl

/-- The steps between neighbours grow with the position, and are 200 from 10001 on. -/
theorem mem_neighbor_far {p w : ℤ} (hfar : 11000 < p ∨ 11000 < w) : w ∈ getNeighborPosList p ∧ w ≠ p ↔
    p ∈ ({w - 400, w - 200, w + 200, w + 400, w + 600, w + 800, w + 1000} : Finset ℤ) := by
  simp only [Finset.mem_insert, Finset.mem_singleton]
  by_cases hskip : p ≤ 10000
  · have hstep : getSkip p ≤ 100 ∧ 1 ≤ getSkip p := by
      unfold getSkip
      split_ifs <;> omega
    refine iff_of_false ?_ (by omega)
    rintro ⟨h, -⟩
    unfold getNeighborPosList at h
    split_ifs at h
    · simp at h
      omega
    · simp at h
      omega
  · rw [getNeighborPosList, if_neg (by omega), getSkip_far (not_le.mp hskip)]
    simp
    omega

/-- At every two positions, one is told of the other exactly if the other is among its neighbours. -/
theorem watcher_iff_neighbor {p w : ℤ} (hp : 1 ≤ p) (hw : 1 ≤ w) : ∃ watcher neighbor, getWatcher w = some watcher ∧
    getNeighbor p = some neighbor ∧ (p ∈ watcher ↔ w ∈ neighbor ∧ w ≠ p) := by
  by_cases hfar : w > 11000
  · exact ⟨_, _, if_pos hfar, getNeighbor_eq hp, (mem_neighbor_far (.inr hfar)).symm⟩
  · obtain ⟨watcher, hwatcher, hmem⟩ := getWatcher_of_le ⟨hw, not_lt.mp hfar⟩
    refine ⟨watcher, _, hwatcher, getNeighbor_eq hp, (hmem p).trans (and_iff_right_of_imp ?_)⟩
    intro h
    by_contra hlarge
    have := (mem_neighbor_far (.inl (by omega))).mp h
    simp only [Finset.mem_insert, Finset.mem_singleton] at this
    omega

theorem watcher_iff_neighbor_next : ∃ watcher neighbor, getWatcher 13 = some watcher ∧ getNeighbor 12 = some neighbor ∧
    (12 ∈ watcher ↔ (13 : ℤ) ∈ neighbor ∧ (13 : ℤ) ≠ 12) :=
  watcher_iff_neighbor (by decide) (by decide)

end CServer.Arena
