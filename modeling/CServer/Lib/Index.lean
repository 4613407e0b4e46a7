import Mathlib.Tactic

/-! # A map as the index of a set of objects

Objects are addresses with a key each. A map from keys to addresses indexes a set of objects when it
finds exactly these, each under its own key.
-/
namespace CServer.Lib
open Function

variable {K : Type} {m : K → Option ℕ} {key key' : ℕ → K} {P Q : ℕ → Prop} {p : ℕ}

def Indexes (m : K → Option ℕ) (key : ℕ → K) (P : ℕ → Prop) : Prop := ∀ k q, m k = some q ↔ P q ∧ key q = k

theorem indexes_none (hP : ∀ q, ¬ P q) : Indexes (fun _ => none) key P := by
  intro k q
  refine ⟨fun he => ?_, fun hq => absurd hq.1 (hP q)⟩
  cases he

theorem Indexes.congr (h : Indexes m key P) (hPQ : ∀ q, P q ↔ Q q) (hkey : ∀ q, P q → key' q = key q) :
    Indexes m key' Q := by
  intro k q
  rw [h k q, ← hPQ q]
  constructor
  · rintro ⟨hq, rfl⟩
    exact ⟨hq, hkey q hq⟩
  · rintro ⟨hq, rfl⟩
    exact ⟨hq, (hkey q hq).symm⟩

theorem Indexes.keep (h : Indexes m key P) (hself : P p ↔ Q p) (hother : ∀ q, q ≠ p → (P q ↔ Q q)) :
    Indexes m key Q := by
  refine h.congr (fun q => ?_) fun q _ => rfl
  by_cases hq : q = p
  · rw [hq]
    exact hself
  · exact hother q hq

theorem Indexes.mem (h : Indexes m key P) {k : K} (hk : m k = some p) : P p ∧ key p = k := (h k p).mp hk

theorem Indexes.absent (h : Indexes m key P) {k : K} (hk : m k = none) (hp : P p) : key p ≠ k := by
  intro he
  rw [(h k p).mpr ⟨hp, he⟩] at hk
  cases hk

variable [DecidableEq K]

theorem Indexes.insert (h : Indexes m key P) (huniq : ∀ q, P q → key q = key p → q = p) (hself : Q p)
    (hother : ∀ q, q ≠ p → (P q ↔ Q q)) : Indexes (update m (key p) (some p)) key Q := by
  intro k q
  by_cases hk : k = key p
  · subst hk
    rw [update_self]
    constructor
    · intro he
      obtain rfl := Option.some.inj he
      exact ⟨hself, rfl⟩
    · intro hq
      by_cases hqp : q = p
      · rw [hqp]
      · rw [huniq q ((hother q hqp).mpr hq.1) hq.2]
  · rw [update_of_ne hk, h k q]
    have hne : key q = k → q ≠ p := by
      intro hq he
      exact hk (hq.symm.trans (congrArg key he))
    exact and_congr_left fun hq => hother q (hne hq)

theorem Indexes.erase (h : Indexes m key P) (huniq : ∀ q, P q → key q = key p → q = p) (hself : ¬ Q p)
    (hother : ∀ q, q ≠ p → (P q ↔ Q q)) : Indexes (update m (key p) none) key Q := by
  intro k q
  by_cases hk : k = key p
  · subst hk
    rw [update_self]
    refine ⟨fun he => ?_, fun hq => ?_⟩
    · cases he
    · have hqp : q ≠ p := by
        intro he
        exact hself (he ▸ hq.1)
      exact absurd (huniq q ((hother q hqp).mpr hq.1) hq.2) hqp
  · rw [update_of_ne hk, h k q]
    have hne : key q = k → q ≠ p := by
      intro hq he
      exact hk (hq.symm.trans (congrArg key he))
    exact and_congr_left fun hq => hother q (hne hq)

/-- An object that moves to a free address takes its key along. -/
theorem Indexes.move {i j : ℕ} (h : Indexes m key P) (huniq : ∀ q, P q → key q = key i → q = i) (hfree : ¬ P j)
    (hgone : ¬ Q i) (hnew : Q j) (hkey : key' j = key i)
    (hother : ∀ q, q ≠ i → q ≠ j → (P q ↔ Q q) ∧ key' q = key q) : Indexes (update m (key i) (some j)) key' Q := by
  have hleft : ∀ q, q ≠ i → (P q ↔ Q q ∧ q ≠ j) := by
    intro q hq
    by_cases hqj : q = j
    · rw [hqj]
      exact ⟨fun hp => absurd hp hfree, fun hp => absurd rfl hp.2⟩
    · rw [(hother q hq hqj).1, and_iff_left hqj]
  have hstay : ∀ q, Q q ∧ q ≠ j → q ≠ i := fun q hq heq => hgone (heq ▸ hq.1)
  have herase := h.erase huniq (fun hq => hstay i hq rfl) hleft
  have hmoved := herase.congr (fun _ => Iff.rfl) fun q hq => (hother q (hstay q hq) hq.2).2
  have hinsert := hmoved.insert (p := j) (fun q hq heq => ?_) hnew fun q hq => and_iff_left hq
  · rwa [hkey, update_idem] at hinsert
  · have hqi := hstay q hq
    rw [(hother q hqi hq.2).2, hkey] at heq
    exact absurd (huniq q ((hleft q hqi).mpr hq) heq) hqi

end CServer.Lib
