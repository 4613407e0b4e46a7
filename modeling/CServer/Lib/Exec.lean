import Mathlib.Tactic

/-! # Runs of deterministic machines with outputs

A machine is a step function on states that consumes an input, produces an output and may fault.
`exec` runs it over a list of inputs, `run` where there are no outputs.
-/
namespace CServer.Lib

variable {σ τ ι ο ε : Type}

def exec (step : σ → ι → Except ε (σ × ο)) : σ → List ι → Except ε (σ × List ο)
  | s, [] => .ok (s, [])
  | s, i :: is =>
    match step s i with
    | .error e => .error e
    | .ok (s', o) =>
      match exec step s' is with
      | .error e => .error e
      | .ok (s'', os) => .ok (s'', o :: os)

def specExec (step : τ → ι → τ × ο) : τ → List ι → τ × List ο
  | t, [] => (t, [])
  | t, i :: is =>
    let r := specExec step (step t i).1 is
    (r.1, (step t i).2 :: r.2)

variable {is : List ι} {i : ι} {s s' : σ}

theorem exec_cons_ok {step : σ → ι → Except ε (σ × ο)} {s'' : σ} {o : ο}
    {os : List ο} (h1 : step s i = .ok (s', o)) (h2 : exec step s' is = .ok (s'', os)) :
    exec step s (i :: is) = .ok (s'', o :: os) := by
  rw [exec, h1]
  simp only [h2]

variable {R : σ → τ → Prop} {spec : τ → ι → τ × ο}

theorem exec_simulates {step : σ → ι → Except ε (σ × ο)}
    (hstep : ∀ s t i, R s t → ∃ s', step s i = .ok (s', (spec t i).2) ∧ R s' (spec t i).1)
    (is : List ι) : ∀ s t, R s t →
      ∃ s', exec step s is = .ok (s', (specExec spec t is).2) ∧ R s' (specExec spec t is).1 := by
  induction is with
  | nil =>
    intro s t h
    exact ⟨s, rfl, h⟩
  | cons i is ih =>
    intro s t h
    obtain ⟨s', h1, h'⟩ := hstep s t i h
    obtain ⟨s'', h2, h''⟩ := ih s' _ h'
    exact ⟨s'', exec_cons_ok h1 h2, h''⟩

theorem specExec_outputs {P : ο → Prop} (h : ∀ t i, P (spec t i).2) (is : List ι) :
    ∀ t, ∀ o ∈ (specExec spec t is).2, P o := by
  induction is with
  | nil =>
    intro t o ho
    simp [specExec] at ho
  | cons i is ih =>
    intro t o ho
    rcases List.mem_cons.mp ho with rfl | ho
    · exact h t i
    · exact ih _ o ho

/-! ## Machines without outputs -/

def run (step : σ → ι → Except ε σ) : σ → List ι → Except ε σ
  | s, [] => .ok s
  | s, i :: is =>
    match step s i with
    | .error e => .error e
    | .ok s' => run step s' is

def Along (step : σ → ι → Except ε σ) (G : σ → ι → Prop) : σ → List ι → Prop
  | _, [] => True
  | s, i :: is => G s i ∧ ∀ s', step s i = .ok s' → Along step G s' is

variable {step : σ → ι → Except ε σ} {G : σ → ι → Prop}

theorem Along.cons
    (h : G s i) (hstep : step s i = .ok s') (hrest : Along step G s' is) : Along step G s (i :: is) := by
  refine ⟨h, fun s₁ hs₁ => ?_⟩
  obtain rfl : s' = s₁ := Except.ok.inj (hstep.symm.trans hs₁)
  exact hrest

instance decidableAlong (step : σ → ι → Except ε σ) (G : σ → ι → Prop) [∀ s i, Decidable (G s i)] (is : List ι) :
    ∀ s, Decidable (Along step G s is) :=
  match is with
  | [] => fun _ => .isTrue trivial
  | i :: is => fun s =>
    match h : step s i with
    | .error _ => decidable_of_iff (G s i) ⟨fun hg => ⟨hg, fun _ hs => nomatch h.symm.trans hs⟩, And.left⟩
    | .ok s' =>
      have := decidableAlong step G is s'
      decidable_of_iff (G s i ∧ Along step G s' is)
        ⟨fun hg => Along.cons hg.1 h hg.2, fun hg => ⟨hg.1, hg.2 s' h⟩⟩

theorem along_of_forall {G : ι → Prop} (is : List ι) :
    ∀ s : σ, (∀ i ∈ is, G i) → Along step (fun _ i => G i) s is := by
  induction is with
  | nil => exact fun _ _ => trivial
  | cons i is ih =>
    exact fun s h => ⟨h i List.mem_cons_self, fun s' _ => ih s' fun j hj => h j (List.mem_cons_of_mem i hj)⟩

theorem Along.and {H : σ → ι → Prop} :
    ∀ {s : σ}, Along step G s is → Along step H s is → Along step (fun s i => G s i ∧ H s i) s is := by
  induction is with
  | nil => exact fun _ _ => trivial
  | cons i is ih => exact fun hG hH => ⟨⟨hG.1, hH.1⟩, fun s' hs' => ih (hG.2 s' hs') (hH.2 s' hs')⟩

theorem Along.imp {H : σ → ι → Prop} (hGH : ∀ s i, G s i → H s i) :
    ∀ {s : σ}, Along step G s is → Along step H s is := by
  induction is with
  | nil => exact fun _ => trivial
  | cons i is ih => exact fun hG => ⟨hGH _ i hG.1, fun s' hs' => ih (hG.2 s' hs')⟩

variable {P : σ → Prop}

theorem run_preserves
    (hstep : ∀ s i s', P s → G s i → step s i = .ok s' → P s') (is : List ι) :
    ∀ s s', P s → Along step G s is → run step s is = .ok s' → P s' := by
  induction is with
  | nil =>
    intro s s' h _ hr
    exact Except.ok.inj hr ▸ h
  | cons i is ih =>
    intro s s' h hG hr
    rw [run] at hr
    cases h1 : step s i with
    | error e => simp [h1] at hr
    | ok s₁ =>
      simp only [h1] at hr
      exact ih s₁ s' (hstep s i s₁ h hG.1 h1) (hG.2 s₁ h1) hr

theorem run_ok
    (hstep : ∀ s i, P s → G s i → ∃ s', step s i = .ok s' ∧ P s') (is : List ι) :
    ∀ s, P s → Along step G s is → ∃ s', run step s is = .ok s' ∧ P s' := by
  induction is with
  | nil => exact fun s h _ => ⟨s, rfl, h⟩
  | cons i is ih =>
    intro s h hG
    obtain ⟨s₁, h1, hok⟩ := hstep s i h hG.1
    obtain ⟨s', hrun, hok'⟩ := ih s₁ hok (hG.2 s₁ h1)
    exact ⟨s', by rw [run, h1]; exact hrun, hok'⟩

theorem run_append (is is' : List ι) :
    ∀ {s s' : σ}, run step s is = .ok s' → run step s (is ++ is') = run step s' is' := by
  induction is with
  | nil =>
    intro s s' h
    rw [List.nil_append, Except.ok.inj h]
  | cons i is ih =>
    intro s s' h
    rw [run] at h
    cases h1 : step s i with
    | error e => simp [h1] at h
    | ok s₁ =>
      simp only [h1] at h
      rw [List.cons_append, run, h1]
      exact ih h

theorem Along.append (is is' : List ι) :
    ∀ {s : σ}, Along step G s (is ++ is') →
      Along step G s is ∧ ∀ s', run step s is = .ok s' → Along step G s' is' := by
  induction is with
  | nil =>
    intro s h
    exact ⟨trivial, fun s' hs' => Except.ok.inj hs' ▸ h⟩
  | cons i is ih =>
    intro s h
    refine ⟨⟨h.1, fun s₁ h1 => (ih (h.2 s₁ h1)).1⟩, ?_⟩
    intro s' hr
    rw [run] at hr
    cases h1 : step s i with
    | error e => simp [h1] at hr
    | ok s₁ =>
      simp only [h1] at hr
      exact (ih (h.2 s₁ h1)).2 s' hr

theorem along_concat (is : List ι) (i : ι) :
    ∀ {s : σ}, Along step G s (is ++ [i]) ↔ Along step G s is ∧ ∀ s', run step s is = .ok s' → G s' i := by
  induction is with
  | nil =>
    intro s
    constructor
    · exact fun h => ⟨trivial, fun s' hs' => Except.ok.inj hs' ▸ h.1⟩
    · exact fun h => ⟨h.2 s rfl, fun _ _ => trivial⟩
  | cons j is ih =>
    intro s
    rw [List.cons_append, Along, Along, run]
    cases step s j with
    | error e => simp
    | ok s₁ => simp [ih, and_assoc]

theorem run_total (f : σ → ι → σ) (is : List ι) :
    ∀ s, run (fun s i => (.ok (f s i) : Except ε σ)) s is = .ok (is.foldl f s) := by
  induction is with
  | nil => exact fun _ => rfl
  | cons i is ih => exact fun s => ih (f s i)

def silent (step : σ → ι → Except ε (σ × ο)) (s : σ) (i : ι) : Except ε σ :=
  match step s i with
  | .error e => .error e
  | .ok (s', _) => .ok s'

theorem silent_ok {step : σ → ι → Except ε (σ × ο)} {o : ο} (h : step s i = .ok (s', o)) :
    silent step s i = .ok s' := by
  rw [silent, h]

theorem exec_simulates_along {step : σ → ι → Except ε (σ × ο)}
    (hstep : ∀ s t i, R s t → G s i → ∃ s', step s i = .ok (s', (spec t i).2) ∧ R s' (spec t i).1)
    (is : List ι) : ∀ s t, R s t → Along (silent step) G s is →
      ∃ s', exec step s is = .ok (s', (specExec spec t is).2) ∧ R s' (specExec spec t is).1 := by
  induction is with
  | nil =>
    intro s t h _
    exact ⟨s, rfl, h⟩
  | cons i is ih =>
    intro s t h hG
    obtain ⟨s', h1, h'⟩ := hstep s t i h hG.1
    obtain ⟨s'', h2, h''⟩ := ih s' _ h' (hG.2 s' (silent_ok h1))
    exact ⟨s'', exec_cons_ok h1 h2, h''⟩

/-! ## Every state of a run -/

def Throughout (step : σ → ι → Except ε σ) (P : σ → Prop) : σ → List ι → Prop
  | s, [] => P s
  | s, i :: is => P s ∧ ∀ s', step s i = .ok s' → Throughout step P s' is

theorem Throughout.head
    (h : Throughout step P s is) : P s := by
  cases is with
  | nil => exact h
  | cons i is => exact h.1

theorem run_throughout {Q : σ → Prop} (hPQ : ∀ s, P s → Q s)
    (hstep : ∀ s i s', P s → G s i → step s i = .ok s' → P s') (is : List ι) :
    ∀ s, P s → Along step G s is → Throughout step Q s is := by
  induction is with
  | nil => exact fun s h _ => hPQ s h
  | cons i is ih =>
    intro s h hG
    exact ⟨hPQ s h, fun s' hs' => ih s' (hstep s i s' h hG.1 hs') (hG.2 s' hs')⟩

theorem along_of_throughout
    (htotal : ∀ s i, ∃ s', step s i = .ok s') (hstep : ∀ s i s', P s → step s i = .ok s' → P s' → G s i)
    (is : List ι) : ∀ s, Throughout step P s is → Along step G s is := by
  induction is with
  | nil => exact fun _ _ => trivial
  | cons i is ih =>
    intro s h
    obtain ⟨s', hs'⟩ := htotal s i
    exact .cons (hstep s i s' h.1 hs' (h.2 s' hs').head) hs' (ih s' (h.2 s' hs'))

/-- Where good states come from good ones just when the input meets the guard, a run goes through good states just when
all of its inputs do. -/
theorem throughout_iff_along {Q : σ → Prop}
    (htotal : ∀ s i, ∃ s', step s i = .ok s') (hstep : ∀ s i s', P s → step s i = .ok s' → P s')
    (hiff : ∀ s i s', P s → Q s → step s i = .ok s' → (Q s' ↔ G s i)) (is : List ι) :
    ∀ s, P s → Q s → (Throughout step Q s is ↔ Along step G s is) := by
  induction is with
  | nil => exact fun s _ hq => iff_of_true hq trivial
  | cons i is ih =>
    intro s hp hq
    obtain ⟨s', hs'⟩ := htotal s i
    have hp' := hstep s i s' hp hs'
    constructor
    · intro h
      have hq' := (h.2 s' hs').head
      exact .cons ((hiff s i s' hp hq hs').mp hq') hs' ((ih s' hp' hq').mp (h.2 s' hs'))
    · intro h
      have hq' := (hiff s i s' hp hq hs').mpr h.1
      refine ⟨hq, fun s₁ hs₁ => ?_⟩
      obtain rfl : s' = s₁ := Except.ok.inj (hs'.symm.trans hs₁)
      exact (ih s' hp' hq').mpr (h.2 s' hs')

theorem Throughout.last :
    ∀ {s s' : σ}, Throughout step P s is → run step s is = .ok s' → P s' := by
  induction is with
  | nil =>
    intro s s' h hr
    exact Except.ok.inj hr ▸ h
  | cons i is ih =>
    intro s s' h hr
    rw [run] at hr
    cases h1 : step s i with
    | error e => simp [h1] at hr
    | ok s₁ =>
      simp only [h1] at hr
      exact ih (h.2 s₁ h1) hr

/-- Two conditions that are the same in good states are the same along the runs that go through good states. -/
theorem along_congr {T H : σ → ι → Prop}
    (hstep : ∀ s i s', P s → T s i → step s i = .ok s' → P s') (hiff : ∀ s i, P s → T s i → (G s i ↔ H s i))
    (is : List ι) : ∀ s, P s → Along step T s is → (Along step G s is ↔ Along step H s is) := by
  induction is with
  | nil => exact fun _ _ _ => Iff.rfl
  | cons i is ih =>
    intro s h hT
    refine and_congr (hiff s i h hT.1) (forall_congr' fun s' => forall_congr' fun hs' => ?_)
    exact ih s' (hstep s i s' h hT.1 hs') (hT.2 s' hs')

theorem not_throughout (f : σ → Bool)
    (hrun : (run step s is).toOption.map f = some true) (hf : ∀ s', f s' = true → ¬ P s') :
    ¬ Throughout step P s is := by
  intro h
  cases hlast : run step s is with
  | error e =>
    rw [hlast] at hrun
    exact nomatch hrun
  | ok s' =>
    rw [hlast] at hrun
    exact hf s' (Option.some.inj hrun) (h.last hlast)

/-! ## Two machines side by side -/

inductive Alike {α β : Type} (R : α → β → Prop) : Except ε α → Except ε β → Prop
  | error (e : ε) : Alike R (.error e) (.error e)
  | ok {a : α} {b : β} (h : R a b) : Alike R (.ok a) (.ok b)

theorem Alike.bind {α β γ δ : Type} {R : α → β → Prop} {S : γ → δ → Prop} {x : Except ε α} {y : Except ε β}
    {f : α → Except ε γ} {g : β → Except ε δ} (h : Alike R x y) (hf : ∀ a b, R a b → Alike S (f a) (g b)) :
    Alike S (x >>= f) (y >>= g) := by
  cases h with
  | error e => exact .error e
  | ok h => exact hf _ _ h

theorem Alike.map_eq {α β γ : Type} {R : α → β → Prop} {x : Except ε α} {y : Except ε β} {f : α → γ} {g : β → γ}
    (h : Alike R x y) (hf : ∀ a b, R a b → f a = g b) : x.map f = y.map g := by
  cases h with
  | error e => rfl
  | ok h => exact congrArg Except.ok (hf _ _ h)

theorem exec_alike {step : σ → ι → Except ε (σ × ο)} {step' : τ → ι → Except ε (τ × ο)}
    (hstep : ∀ s t i, R s t → Alike (fun a b => R a.1 b.1 ∧ a.2 = b.2) (step s i) (step' t i)) (is : List ι) :
    ∀ s t, R s t → Alike (fun a b => R a.1 b.1 ∧ a.2 = b.2) (exec step s is) (exec step' t is) := by
  induction is with
  | nil => exact fun s t h => .ok ⟨h, rfl⟩
  | cons i is ih =>
    intro s t h
    have hfirst := hstep s t i h
    rw [exec, exec]
    generalize step s i = x at hfirst ⊢
    generalize step' t i = y at hfirst ⊢
    cases hfirst with
    | error e => exact .error e
    | @ok a b hab =>
      have hrest := ih a.1 b.1 hab.1
      simp only
      generalize exec step a.1 is = x at hrest ⊢
      generalize exec step' b.1 is = y at hrest ⊢
      cases hrest with
      | error e => exact .error e
      | ok h => exact .ok ⟨h.1, by rw [hab.2, h.2]⟩

end CServer.Lib
