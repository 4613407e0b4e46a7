import CServer.Lib.Memory

/-! # Functions that call themselves from inside loops

A body is a function of what its calls answer; `unroll body n` allows `n` calls inside one another, and faults where there
would be more. A state is threaded through the calls, so a loop is a `foldlM`.
-/
namespace CServer.Lib

variable {σ α β ρ : Type}

def unroll (body : (σ → α → Except Fault β) → σ → α → Except Fault β) : ℕ → σ → α → Except Fault β
  | 0 => fun _ _ => .error .diverges
  | n + 1 => body (unroll body n)

def Returns (body : (σ → α → Except Fault β) → σ → α → Except Fault β) (s : σ) (a : α) : Prop :=
  ∃ n b, unroll body n s a = .ok b

def Steady (F : ℕ → Except Fault β) : Prop := ∀ n m, n ≤ m → ∀ b, F n = .ok b → F m = .ok b

section Unroll
variable {body : (σ → α → Except Fault β) → σ → α → Except Fault β}

theorem unroll_steady
    (hbody : ∀ F : ℕ → σ → α → Except Fault β, (∀ s a, Steady fun n => F n s a) → ∀ s a, Steady fun n => body (F n) s a)
    (s : σ) (a : α) : Steady fun n => unroll body n s a := by
  -- allowing one call more, for all states and arguments at once
  have hstep : ∀ n s a b, unroll body n s a = .ok b → unroll body (n + 1) s a = .ok b := by
    intro n
    induction n with
    | zero =>
      intro s a b hb
      cases hb
    | succ n ih =>
      intro s a b hb
      have hF := hbody (fun k => if k = 0 then unroll body n else unroll body (n + 1)) (by
        intro s a k m hkm b hb
        by_cases hk : k = 0
        · by_cases hm : m = 0
          · simpa [hk, hm] using hb
          · simp only [hk, hm, if_true, if_false] at hb ⊢
            exact ih s a b hb
        · have hm : m ≠ 0 := by omega
          simpa [hk, hm] using hb)
      exact hF s a 0 1 (by omega) b hb
  intro n m hnm b hb
  induction hnm with
  | refl => exact hb
  | step _ ih => exact hstep _ s a b ih

theorem returns_of_acc {R : α → α → Prop} {a : α} (ha : Acc R a)
    (h : ∀ a, (∀ a', R a' a → ∀ s, Returns body s a') → ∀ s, Returns body s a) : ∀ s, Returns body s a := by
  induction ha with
  | intro a _ ih => exact h a ih

theorem not_returns {P : α → Prop}
    (h : ∀ f : σ → α → Except Fault β, (∀ a, P a → ∀ s b, f s a ≠ .ok b) → ∀ a, P a → ∀ s b, body f s a ≠ .ok b) {a : α}
    (ha : P a) (s : σ) : ¬ Returns body s a := by
  have hall : ∀ n a, P a → ∀ s b, unroll body n s a ≠ .ok b := by
    intro n
    induction n with
    | zero =>
      intro a _ s b hb
      cases hb
    | succ n ih => exact h (unroll body n) ih
  intro hr
  obtain ⟨n, b, hb⟩ := hr
  exact hall n a ha s b hb

theorem unroll_keeps {Q : σ → Prop} {post : β → Prop}
    (hbody : ∀ f : σ → α → Except Fault β, (∀ s a b, Q s → f s a = .ok b → post b) →
      ∀ s a b, Q s → body f s a = .ok b → post b) (n : ℕ) :
    ∀ s a b, Q s → unroll body n s a = .ok b → post b := by
  induction n with
  | zero =>
    intro s a b _ hb
    cases hb
  | succ n ih => exact hbody (unroll body n) ih

end Unroll

/-! ## One call after another -/

theorem steady_const (x : Except Fault α) : Steady fun _ => x := fun _ _ _ _ h => h

variable {F : ℕ → Except Fault α}

theorem Steady.bind {G : ℕ → α → Except Fault β} (hF : Steady F)
    (hG : ∀ a, Steady fun n => G n a) : Steady fun n => F n >>= G n := by
  intro n m hnm b hb
  obtain ⟨a, ha, hb⟩ := bind_ok_iff.mp hb
  exact bind_ok_iff.mpr ⟨a, hF n m hnm a ha, hG a n m hnm b hb⟩

theorem bind_returns {G : ℕ → α → Except Fault β} (hF : Steady F)
    (hG : ∀ a, Steady fun n => G n a) (h₁ : ∃ n a, F n = .ok a) (h₂ : ∀ a, ∃ n b, G n a = .ok b) :
    ∃ n b, (F n >>= G n) = .ok b := by
  obtain ⟨n, a, ha⟩ := h₁
  obtain ⟨m, b, hb⟩ := h₂ a
  exact ⟨max n m, b, bind_ok_iff.mpr ⟨a, hF n _ (le_max_left n m) a ha, hG a m _ (le_max_right n m) b hb⟩⟩

theorem map_returns {g : α → β} (h : ∃ n a, F n = .ok a) :
    ∃ n b, (F n >>= fun a => pure (g a)) = .ok b := by
  obtain ⟨n, a, ha⟩ := h
  exact ⟨n, g a, bind_ok_iff.mpr ⟨a, ha, rfl⟩⟩

/-! ## Loops -/

section Loops
variable {F : ℕ → σ → α → Except Fault σ} (hF : ∀ s a, Steady fun n => F n s a)

include hF

theorem foldlM_steady (l : List α) (s : σ) : Steady fun n => l.foldlM (F n) s := by
  induction l generalizing s with
  | nil => exact steady_const (.ok s)
  | cons a l ih =>
    simp only [List.foldlM_cons]
    exact (hF s a).bind fun s' => ih s'

theorem foldlM_returns (l : List α) (h : ∀ a ∈ l, ∀ s, ∃ n s', F n s a = .ok s') (s : σ) :
    ∃ n s', l.foldlM (F n) s = .ok s' := by
  induction l generalizing s with
  | nil => exact ⟨0, s, rfl⟩
  | cons a l ih =>
    simp only [List.foldlM_cons]
    exact bind_returns (hF s a) (fun s' => foldlM_steady hF l s') (h a List.mem_cons_self s)
      fun s' => ih (fun b hb => h b (List.mem_cons_of_mem a hb)) s'

omit hF in
theorem foldlM_keeps {f : σ → α → Except Fault σ} {Q : σ → Prop} (h : ∀ s a s', Q s → f s a = .ok s' → Q s') {l : List α}
    {s s' : σ} (hs : Q s) (hr : l.foldlM f s = .ok s') : Q s' := by
  induction l generalizing s with
  | nil =>
    cases hr
    exact hs
  | cons a l ih =>
    rw [List.foldlM_cons] at hr
    obtain ⟨s₁, h₁, hr⟩ := bind_ok_iff.mp hr
    exact ih (h s a s₁ hs h₁) hr

omit hF in
theorem foldlM_not_ok {f : σ → α → Except Fault σ} {l : List α} {a : α} (ha : a ∈ l) (h : ∀ s b, f s a ≠ .ok b) (s b : σ) :
    l.foldlM f s ≠ .ok b := by
  induction l generalizing s with
  | nil => cases ha
  | cons c l ih =>
    intro hb
    rw [List.foldlM_cons] at hb
    obtain ⟨s', hs', hb⟩ := bind_ok_iff.mp hb
    cases List.mem_cons.mp ha with
    | inl heq => exact h s s' (heq ▸ hs')
    | inr hl => exact ih hl s' hb

end Loops

end CServer.Lib
