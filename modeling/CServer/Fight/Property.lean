import CServer.Lib.Memory
import CServer.Lib.Exec
import CServer.Fight.PropertyFormula

/-! # `fight/utils/Property.lua`: properties that are computed and cached

A property is what the unit started with, plus what has been assigned since, plus what its formula computes from other
properties, plus, for raw ids and keys without a formula, what merged tables add. `Get` caches the sum without what has
been assigned; while formulas are evaluated it records, for each key that is read, the keys on its path, whose cached
values an assignment to it clears. All values are numbers.
-/
namespace CServer.Fight
open CServer.Lib Function List Option Nat

variable {K V M : Type}

structure Base (K V M : Type) where
  property : K → Option V
  merged : List (M × (K → Option V))
  change : K → Option V

/-- `depends j k` is whether `k` is recorded as read through `j`. -/
structure Property (K V M : Type) extends Base K V M where
  cached : List (K × V)
  path : List K
  depends : K → K → Bool

inductive PropertyAct (K V M : Type)
  | read (key : K)
  | write (key : K) (value : V)
  | add (key : M) (property : K → Option V)
  | remove (key : M)

section Model
variable [DecidableEq K] [DecidableEq M] [AddCommGroup V]

def addMerged (merged : List (M × (K → Option V))) (key : K) (v : Option V) : Option V :=
  merged.foldl (fun v m => match m.2 key with | some mv => some (v.getD 0 + mv) | none => v) v

/-! ## From scratch -/

namespace Base

def value (fs : Formulas K V) (b : Base K V M) : ℕ → K → V
  | 0, _ => 0
  | n + 1, key =>
    (b.property key).getD 0 + (b.change key).getD 0 + ((fs.formula key).map fun c => c.eval (b.value fs n)).getD 0 +
      if fs.isNumber key ∨ fs.formula key = none then (b.merged.map fun m => (m.2 key).getD 0).sum else 0

def read (fs : Formulas K V) (b : Base K V M) (key : K) : V := b.value fs (fs.rank key + 1) key

def readsTo (fs : Formulas K V) (b : Base K V M) : ℕ → K → List K
  | 0, _ => []
  | n + 1, key =>
    match fs.formula key with
    | none => []
    | some c => (c.asked (b.read fs)).flatMap fun j => j :: b.readsTo fs n j

def reads (fs : Formulas K V) (b : Base K V M) (key : K) : List K := b.readsTo fs (fs.rank key + 1) key

def write (fs : Formulas K V) (b : Base K V M) (key : K) (value : V) : Base K V M :=
  { b with change := update b.change key (some ((b.change key).getD 0 + (value - b.read fs key))) }

def add (b : Base K V M) (key : M) (property : K → Option V) : Base K V M :=
  { b with merged := b.merged.filter (fun m => m.1 ≠ key) ++ [(key, property)] }

def remove (b : Base K V M) (key : M) : Base K V M := { b with merged := b.merged.filter fun m => m.1 ≠ key }

def step (fs : Formulas K V) (b : Base K V M) : PropertyAct K V M → Base K V M × Option V
  | .read key => (b, some (b.read fs key))
  | .write key value => (b.write fs key value, none)
  | .add key property => (b.add key property, none)
  | .remove key => (b.remove key, none)

end Base

/-! ## The code -/

namespace Property

def new (property : K → Option V) : Property K V M := ⟨⟨property, [], fun _ => none⟩, [], [], fun _ _ => false⟩

def record (s : Property K V M) (key : K) : Property K V M :=
  { s with depends := fun j k => s.depends j k || decide (j = key ∧ k ∈ s.path) }

def evaluate (get : Property K V M → K → Except Fault (Option V × Property K V M)) (s : Property K V M) (key : K)
    (v : Option V) : Option (Query K V V) → Except Fault (Option V × Property K V M)
  | none => .ok (v, s)
  | some c =>
    match c.run (fun s j => (get s j).map fun r => (r.1.getD 0, r.2)) { s with path := s.path ++ [key] } with
    | .error e => .error e
    | .ok (cv, s) => .ok (some (v.getD 0 + cv), { s with path := s.path.dropLast })

def keep (s : Property K V M) (key : K) : Option V → Option V × Property K V M
  | none => (none, s)
  | some v => (some (v + (s.change key).getD 0), { s with cached := (key, v) :: s.cached })

/-- `Get`, with formulas evaluated down to the depth `n`. -/
def get (fs : Formulas K V) : ℕ → Property K V M → K → Except Fault (Option V × Property K V M)
  | 0, _, _ => .error .diverges
  | n + 1, s, key =>
    if key ∈ s.path then .error .assertion
    else
      let s := s.record key
      match s.cached.lookup key with
      | some v => .ok (some (v + (s.change key).getD 0), s)
      | none =>
        let v := s.property key
        let v := if (s.change key).isSome then some (v.getD 0) else v
        match evaluate (get fs n) s key v (fs.formula key) with
        | .error e => .error e
        | .ok (v, s) =>
          .ok (s.keep key (if fs.isNumber key ∨ fs.formula key = none then addMerged s.merged key v else v))

def getter (fs : Formulas K V) (s : Property K V M) (key : K) : Except Fault (V × Property K V M) :=
  (get fs (fs.rank key + 1) s key).map fun r => (r.1.getD 0, r.2)

def setter (fs : Formulas K V) (s : Property K V M) (key : K) (value : V) : Except Fault (Property K V M) :=
  match s.getter fs key with
  | .error e => .error e
  | .ok (v, s) => .ok { s with
      change := update s.change key (some ((s.change key).getD 0 + (value - v)))
      cached := s.cached.filter fun e => !s.depends key e.1 }

def add (s : Property K V M) (key : M) (property : K → Option V) : Property K V M :=
  { s with toBase := s.toBase.add key property, cached := [] }

def remove (s : Property K V M) (key : M) : Property K V M :=
  if ∃ m ∈ s.merged, m.1 = key then { s with toBase := s.toBase.remove key, cached := [] } else s

def step (fs : Formulas K V) (s : Property K V M) :
    PropertyAct K V M → Except Fault (Property K V M × Option V)
  | .read key => (s.getter fs key).map fun r => (r.2, some r.1)
  | .write key value => (s.setter fs key value).map fun s => (s, none)
  | .add key property => .ok (s.add key property, none)
  | .remove key => .ok (s.remove key, none)

end Property

end Model

/-! ## Values and dependants -/

section Scratch
variable [AddCommGroup V] {fs : Formulas K V} {b : Base K V M}

namespace Base

theorem value_depth (n : ℕ) : ∀ m k, fs.rank k < n → fs.rank k < m → b.value fs n k = b.value fs m k := by
  induction n with
  | zero => exact fun _ _ hn => absurd hn (Nat.not_lt_zero _)
  | succ n ih =>
    intro m k hn hm
    cases m with
    | zero => exact absurd hm (Nat.not_lt_zero _)
    | succ m =>
      rw [value, value]
      cases hf : fs.formula k with
      | none => rfl
      | some c =>
        have heval : c.eval (b.value fs n) = c.eval (b.value fs m) := by
          apply c.eval_congr
          intro j hj
          have hrank := fs.acyclic k c hf _ j hj
          exact ih m j (by omega) (by omega)
        simp only [map_some, heval]

theorem read_eq (k : K) :
    b.read fs k = (b.property k).getD 0 + (b.change k).getD 0 + ((fs.formula k).map fun c => c.eval (b.read fs)).getD 0 +
      if fs.isNumber k ∨ fs.formula k = none then (b.merged.map fun m => (m.2 k).getD 0).sum else 0 := by
  rw [read, value]
  cases hf : fs.formula k with
  | none => rfl
  | some c =>
    have heval : c.eval (b.value fs (fs.rank k)) = c.eval (b.read fs) := by
      apply c.eval_congr
      intro j hj
      exact value_depth _ _ j (fs.acyclic k c hf _ j hj) (lt_succ_self _)
    simp only [map_some, heval]

theorem readsTo_depth (n : ℕ) : ∀ m k, fs.rank k < n → fs.rank k < m → b.readsTo fs n k = b.readsTo fs m k := by
  induction n with
  | zero => exact fun _ _ hn => absurd hn (Nat.not_lt_zero _)
  | succ n ih =>
    intro m k hn hm
    cases m with
    | zero => exact absurd hm (Nat.not_lt_zero _)
    | succ m =>
      rw [readsTo, readsTo]
      cases hf : fs.formula k with
      | none => rfl
      | some c =>
        apply flatMap_congr
        intro j hj
        have hrank := fs.acyclic k c hf _ j hj
        rw [ih m j (by omega) (by omega)]

theorem reads_eq {k : K} {c : Query K V V} (hf : fs.formula k = some c) :
    b.reads fs k = (c.asked (b.read fs)).flatMap fun j => j :: b.reads fs j := by
  rw [reads, readsTo, hf]
  apply flatMap_congr
  intro j hj
  exact congrArg _ (readsTo_depth _ _ j (fs.acyclic k c hf _ j hj) (lt_succ_self _))

theorem rank_reads (n : ℕ) : ∀ k j, fs.rank k < n → j ∈ b.reads fs k → fs.rank j < fs.rank k := by
  induction n with
  | zero => exact fun _ _ hn => absurd hn (Nat.not_lt_zero _)
  | succ n ih =>
    intro k j hn hj
    cases hf : fs.formula k with
    | none =>
      rw [reads, readsTo, hf] at hj
      exact absurd hj not_mem_nil
    | some c =>
      rw [reads_eq hf, mem_flatMap] at hj
      obtain ⟨i, hi, hj⟩ := hj
      have hrank := fs.acyclic k c hf _ i hi
      cases mem_cons.mp hj with
      | inl he => exact he ▸ hrank
      | inr hj => exact (ih i j (by omega) hj).trans hrank

section Change
variable [DecidableEq K]

theorem read_change {key : K} {v : V} (n : ℕ) : ∀ k, fs.rank k < n → k ≠ key → key ∉ b.reads fs k →
    { b with change := update b.change key (some v) }.read fs k = b.read fs k := by
  induction n with
  | zero => exact fun _ hn => absurd hn (Nat.not_lt_zero _)
  | succ n ih =>
    intro k hn hk hkey
    rw [read_eq, read_eq]
    simp only [update_of_ne hk]
    cases hf : fs.formula k with
    | none => rfl
    | some c =>
      rw [reads_eq hf] at hkey
      have heval : c.eval (({ b with change := update b.change key (some v) } : Base K V M).read fs) =
          c.eval (b.read fs) := by
        apply c.eval_congr
        intro j hj
        have hrank := fs.acyclic k c hf _ j hj
        have hj' : key ∉ j :: b.reads fs j := fun h => hkey (mem_flatMap.mpr ⟨j, hj, h⟩)
        exact ih j (by omega) (fun he => hj' (he ▸ mem_cons_self)) fun h => hj' (mem_cons_of_mem j h)
      simp only [map_some, heval]

theorem read_change_self {key : K} {v : V} :
    { b with change := update b.change key (some v) }.read fs key = b.read fs key - (b.change key).getD 0 + v := by
  rw [read_eq, read_eq]
  simp only [update_self, getD_some]
  cases hf : fs.formula key with
  | none =>
    simp only [map_none, getD_none]
    abel
  | some c =>
    have heval : c.eval (({ b with change := update b.change key (some v) } : Base K V M).read fs) =
        c.eval (b.read fs) := by
      apply c.eval_congr
      intro j hj
      have hrank := fs.acyclic key c hf _ j hj
      refine read_change (fs.rank j + 1) j (lt_succ_self _) (fun he => ?_) fun h => ?_
      · rw [he] at hrank
        exact Nat.lt_irrefl _ hrank
      · have := rank_reads (fs.rank j + 1) j key (lt_succ_self _) h
        omega
    simp only [map_some, getD_some, heval]
    abel

end Change
end Base
end Scratch
/-! ## Reads through the cache -/

section Lookup
variable [DecidableEq K]

theorem lookup_filter {p : K → Bool} {k : K} (l : List (K × V)) :
    (l.filter fun e => p e.1).lookup k = if p k then l.lookup k else none := by
  induction l with
  | nil => simp
  | cons e l ih =>
    obtain ⟨j, v⟩ := e
    by_cases hj : k = j
    · subst hj
      cases hp : p k with
      | true => simp [hp]
      | false => simp [hp, ih]
    · have hb : (k == j) = false := beq_false_of_ne hj
      cases hp : p j with
      | true => simp [hp, lookup_cons, hb, ih]
      | false => simp [hp, lookup_cons, hb, ih]

theorem lookup_mem {k : K} (l : List (K × V)) : l.lookup k ≠ none → ∃ v, (k, v) ∈ l := by
  induction l with
  | nil => exact fun h => absurd rfl h
  | cons e l ih =>
    intro h
    obtain ⟨j, v⟩ := e
    by_cases hj : k = j
    · exact ⟨v, hj ▸ .head l⟩
    · rw [lookup_cons, beq_false_of_ne hj] at h
      exact (ih h).imp fun _ hw => .tail _ hw

end Lookup

section Table
variable [DecidableEq M]

theorem Base.lookup_remove (b : Base K V M) (key j : M) :
    (b.remove key).merged.lookup j = if j = key then none else b.merged.lookup j := by
  rw [Base.remove, lookup_filter (p := fun m => decide (m ≠ key))]
  by_cases hj : j = key
  · rw [if_neg (by simpa using hj), if_pos hj]
  · rw [if_pos (by simpa using hj), if_neg hj]

theorem Base.lookup_add (b : Base K V M) (key j : M) (property : K → Option V) :
    (b.add key property).merged.lookup j = if j = key then some property else b.merged.lookup j := by
  have hrest : (b.merged.filter fun m => m.1 ≠ key).lookup j = _ := b.lookup_remove key j
  rw [Base.add, lookup_append, hrest]
  by_cases hj : j = key
  · simp [hj]
  · simp [hj, lookup_cons, beq_false_of_ne hj]

end Table

section Merged
variable [AddCommGroup V]

theorem addMerged_getD (key : K) (merged : List (M × (K → Option V))) : ∀ v : Option V,
    (addMerged merged key v).getD 0 = v.getD 0 + (merged.map fun m => (m.2 key).getD 0).sum := by
  unfold addMerged
  induction merged with
  | nil =>
    intro v
    exact (add_zero _).symm
  | cons m merged ih =>
    intro v
    rw [foldl_cons, ih, map_cons, sum_cons]
    cases m.2 key with
    | none => rw [getD_none, zero_add]
    | some mv => rw [getD_some, getD_some, add_assoc]

theorem addMerged_isSome (key : K) (merged : List (M × (K → Option V))) : ∀ v : Option V,
    v.isSome → (addMerged merged key v).isSome := by
  unfold addMerged
  induction merged with
  | nil => exact fun _ h => h
  | cons m merged ih =>
    intro v hv
    rw [foldl_cons]
    apply ih
    cases m.2 key with
    | none => exact hv
    | some mv => rfl

end Merged

namespace Property
variable [DecidableEq K] [AddCommGroup V] {fs : Formulas K V} {s s' : Property K V M}

/-- What is cached is the value without what has been assigned. -/
def Coherent (fs : Formulas K V) (s : Property K V M) : Prop :=
  ∀ k v, s.cached.lookup k = some v → v + (s.change k).getD 0 = s.toBase.read fs k

structure Reading (fs : Formulas K V) (n : ℕ) (s s' : Property K V M) : Prop where
  coherent : Coherent fs s'
  base : s'.toBase = s.toBase
  path : s'.path = s.path
  recorded : ∀ j k, s.depends j k = true → s'.depends j k = true
  ranks : ∀ k, s'.cached.lookup k ≠ none → s.cached.lookup k ≠ none ∨ fs.rank k ≤ n

theorem Reading.rfl {n : ℕ} (h : Coherent fs s) : Reading fs n s s :=
  ⟨h, Eq.refl _, Eq.refl _, fun _ _ hd => hd, fun _ hk => .inl hk⟩

theorem Reading.trans {n : ℕ} {s₁ : Property K V M} (h : Reading fs n s s₁) (h' : Reading fs n s₁ s') :
    Reading fs n s s' where
  coherent := h'.coherent
  base := h'.base.trans h.base
  path := h'.path.trans h.path
  recorded := fun j k hd => h'.recorded j k (h.recorded j k hd)
  ranks := by
    intro k hk
    cases h'.ranks k hk with
    | inl hk => exact h.ranks k hk
    | inr hk => exact .inr hk

theorem Reading.mono {m n : ℕ} (h : Reading fs m s s') (hmn : m ≤ n) : Reading fs n s s' :=
  { h with ranks := fun k hk => (h.ranks k hk).imp_right fun hk => hk.trans hmn }

theorem reading_record (h : Coherent fs s) (n : ℕ) (key : K) : Reading fs n s (s.record key) where
  coherent := h
  base := Eq.refl _
  path := Eq.refl _
  recorded := fun _ _ hd => Bool.or_eq_true_iff.mpr (.inl hd)
  ranks := fun _ hk => .inl hk

theorem keep_spec {key : K} {v : Option V} {n : ℕ} (h : Coherent fs s) (hn : fs.rank key ≤ n)
    (hv : v.getD 0 + (s.change key).getD 0 = s.toBase.read fs key) (hnone : v = none → s.change key = none) :
    (s.keep key v).1.getD 0 = s.toBase.read fs key ∧ Reading fs n s (s.keep key v).2 := by
  cases v with
  | none =>
    rw [hnone rfl] at hv
    exact ⟨(add_zero 0).symm.trans hv, .rfl h⟩
  | some v =>
    refine ⟨hv, ?_, Eq.refl _, Eq.refl _, fun _ _ hd => hd, ?_⟩
    · intro k w hk
      rw [keep, lookup_cons] at hk
      by_cases he : k = key
      · subst he
        rw [beq_self_eq_true] at hk
        exact some.inj hk ▸ hv
      · rw [beq_false_of_ne he] at hk
        exact h k w hk
    · intro k hk
      rw [keep, lookup_cons] at hk
      by_cases he : k = key
      · exact .inr (he ▸ hn)
      · rw [beq_false_of_ne he] at hk
        exact .inl hk

theorem evaluate_spec {get : Property K V M → K → Except Fault (Option V × Property K V M)} {key : K}
    (h : Coherent fs s) (hpath : ∀ j ∈ s.path, fs.rank key < fs.rank j)
    (hget : ∀ s k, fs.rank k < fs.rank key → (∀ j ∈ s.path, fs.rank k < fs.rank j) → Coherent fs s →
      ∃ o s', get s k = .ok (o, s') ∧ o.getD 0 = s.toBase.read fs k ∧ Reading fs (fs.rank k) s s') (v : Option V) :
    ∃ w s', evaluate get s key v (fs.formula key) = .ok (w, s') ∧
      w.getD 0 = v.getD 0 + ((fs.formula key).map fun c => c.eval (s.toBase.read fs)).getD 0 ∧
      (v.isSome → w.isSome) ∧ Reading fs (fs.rank key) s s' := by
  cases hf : fs.formula key with
  | none => exact ⟨v, s, rfl, (add_zero _).symm, fun hv => hv, .rfl h⟩
  | some c =>
    have hinside : Reading fs (fs.rank key) s s := .rfl h
    have hread : ∀ k ∈ c.asked (s.toBase.read fs), ∀ s₁ : Property K V M,
        Reading fs (fs.rank key) { s with path := s.path ++ [key] } s₁ →
        ∃ s₂, ((get s₁ k).map fun r => (r.1.getD 0, r.2)) = .ok (s.toBase.read fs k, s₂) ∧
          Reading fs (fs.rank key) { s with path := s.path ++ [key] } s₂ := by
      intro k hk s₁ hs₁
      have hrank := fs.acyclic key c hf _ k hk
      have hranks : ∀ j ∈ s₁.path, fs.rank k < fs.rank j := by
        intro j hj
        rw [hs₁.path] at hj
        cases mem_append.mp hj with
        | inl hj => exact hrank.trans (hpath j hj)
        | inr hj => exact mem_singleton.mp hj ▸ hrank
      obtain ⟨o, s₂, hok, ho, hs₂⟩ := hget s₁ k hrank hranks hs₁.coherent
      refine ⟨s₂, ?_, hs₁.trans (hs₂.mono hrank.le)⟩
      rw [hok, Except.map, ho, hs₁.base]
    obtain ⟨s₁, hrun, hs₁⟩ := c.run_eval hread { s with path := s.path ++ [key] } (.rfl h)
    refine ⟨some (v.getD 0 + c.eval (s.toBase.read fs)), { s₁ with path := s₁.path.dropLast }, ?_, rfl, fun _ => rfl, ?_⟩
    · rw [evaluate, hrun]
    · have hdrop : s₁.path.dropLast = s.path := by
        rw [hs₁.path]
        exact dropLast_concat
      exact ⟨hs₁.coherent, hs₁.base, hdrop, hs₁.recorded, hs₁.ranks⟩

theorem get_spec (n : ℕ) : ∀ (s : Property K V M) (key : K), fs.rank key < n →
    (∀ j ∈ s.path, fs.rank key < fs.rank j) → Coherent fs s →
      ∃ o s', get fs n s key = .ok (o, s') ∧ o.getD 0 = s.toBase.read fs key ∧ Reading fs (fs.rank key) s s' := by
  induction n with
  | zero => exact fun _ _ hn => absurd hn (Nat.not_lt_zero _)
  | succ n ih =>
    intro s key hn hpath h
    have hloop : key ∉ s.path := fun hk => Nat.lt_irrefl _ (hpath key hk)
    have hrec := reading_record h (fs.rank key) key
    rw [get, if_neg hloop]
    cases hc : s.cached.lookup key with
    | some v =>
      refine ⟨some (v + (s.change key).getD 0), s.record key, ?_, h key v hc, hrec⟩
      simp only [record, hc]
    | none =>
      have hget : ∀ s k, fs.rank k < fs.rank key → (∀ j ∈ s.path, fs.rank k < fs.rank j) → Coherent fs s →
          ∃ o s', get fs n s k = .ok (o, s') ∧ o.getD 0 = s.toBase.read fs k ∧ Reading fs (fs.rank k) s s' :=
        fun s k hk => ih s k (by omega)
      obtain ⟨w, s₁, heval, hw, hsome, hs₁⟩ := evaluate_spec hrec.coherent hpath hget
        (if (s.change key).isSome then some ((s.property key).getD 0) else s.property key)
      have hbase : s₁.toBase = s.toBase := hs₁.base
      have hrecord : (s.record key).toBase = s.toBase := rfl
      rw [hrecord] at hw
      have hv : (if (s.change key).isSome then some ((s.property key).getD 0) else s.property key).getD 0 =
          (s.property key).getD 0 := by
        split
        · rfl
        · rfl
      have hsum : (if fs.isNumber key ∨ fs.formula key = none then addMerged s₁.merged key w else w).getD 0 +
          (s₁.change key).getD 0 = s₁.toBase.read fs key := by
        rw [hbase, Base.read_eq]
        split
        · rw [addMerged_getD, hw, hv]
          abel
        · rw [hw, hv]
          abel
      have hnone : (if fs.isNumber key ∨ fs.formula key = none then addMerged s₁.merged key w else w) = none →
          s₁.change key = none := by
        intro hnone
        by_contra hchange
        rw [hbase] at hchange
        have hsomev := hsome (by rw [if_pos (isSome_iff_ne_none.mpr hchange)]; rfl)
        split at hnone
        · rw [eq_none_iff_forall_ne_some] at hnone
          obtain ⟨x, hx⟩ := isSome_iff_exists.mp (addMerged_isSome key s₁.merged w hsomev)
          exact hnone x hx
        · rw [hnone] at hsomev
          exact Bool.false_ne_true hsomev
      obtain ⟨hvalue, hkeep⟩ := keep_spec hs₁.coherent le_rfl hsum hnone
      refine ⟨_, _, ?_, hvalue.trans (congrArg (fun b => Base.read fs b key) hbase), hrec.trans (hs₁.trans hkeep)⟩
      have hlookup : (s.record key).cached.lookup key = none := hc
      simp only [hlookup]
      rw [show (s.record key).change = s.change from rfl, show (s.record key).property = s.property from rfl, heval]

theorem getter_spec (h : Coherent fs s) (hpath : s.path = []) (key : K) :
    ∃ s', s.getter fs key = .ok (s.toBase.read fs key, s') ∧ Reading fs (fs.rank key) s s' := by
  have hranks : ∀ j ∈ s.path, fs.rank key < fs.rank j := by
    intro j hj
    rw [hpath] at hj
    exact absurd hj not_mem_nil
  obtain ⟨o, s', hget, ho, hs'⟩ := get_spec (fs.rank key + 1) s key (lt_succ_self _) hranks h
  refine ⟨s', ?_, hs'⟩
  rw [getter, hget, Except.map, ho]

/-! ## Assignments -/

/-- What is cached and depends on the key is recorded as read through it. -/
def Recorded (fs : Formulas K V) (s : Property K V M) : PropertyAct K V M → Prop
  | .write key _ => ∀ e ∈ s.cached, key ∈ s.toBase.reads fs e.1 → s.depends key e.1 = true
  | _ => True

instance (fs : Formulas K V) (s : Property K V M) : ∀ a : PropertyAct K V M, Decidable (Recorded fs s a)
  | .write key _ =>
    inferInstanceAs (Decidable (∀ e ∈ s.cached, key ∈ s.toBase.reads fs e.1 → s.depends key e.1 = true))
  | .read _ => .isTrue trivial
  | .add _ _ => .isTrue trivial
  | .remove _ => .isTrue trivial

theorem setter_spec (h : Coherent fs s) (hpath : s.path = []) {key : K} {value : V}
    (hrec : Recorded fs s (.write key value)) :
    ∃ s', s.setter fs key value = .ok s' ∧ s'.toBase = s.toBase.write fs key value ∧ s'.path = [] ∧ Coherent fs s' := by
  obtain ⟨s₁, hget, hs₁⟩ := getter_spec h hpath key
  have hbase := hs₁.base
  have hset : s.setter fs key value = .ok { s₁ with
      change := update s₁.change key (some ((s₁.change key).getD 0 + (value - s.toBase.read fs key)))
      cached := s₁.cached.filter fun e => !s₁.depends key e.1 } := by
    rw [setter, hget]
  refine ⟨_, hset, ?_, hs₁.path.trans hpath, ?_⟩
  · rw [Base.write, ← hbase]
  · intro k v hk
    change List.lookup k (s₁.cached.filter fun e => !s₁.depends key e.1) = some v at hk
    change v + (update s₁.change key _ k).getD 0 =
      Base.read fs { s₁.toBase with change := update s₁.change key _ } k
    rw [lookup_filter (p := fun k => !s₁.depends key k)] at hk
    have hd : (!s₁.depends key k) = true := by
      by_contra hd
      rw [if_neg hd] at hk
      exact nomatch hk
    rw [if_pos hd] at hk
    have hc := hs₁.coherent k v hk
    by_cases he : k = key
    · subst he
      rw [Base.read_change_self, update_self, ← hc, getD_some]
      abel
    · rw [update_of_ne he, hc]
      refine (Base.read_change (fs.rank k + 1) k (lt_succ_self _) he fun hreads => ?_).symm
      rw [hbase] at hreads
      have hrank := Base.rank_reads (fs.rank k + 1) k key (lt_succ_self _) hreads
      have hold := (hs₁.ranks k (by rw [hk]; exact some_ne_none v)).resolve_right (Nat.not_le.mpr hrank)
      obtain ⟨w, hw⟩ := lookup_mem s.cached hold
      have hdep := hs₁.recorded key k (hrec (k, w) hw hreads)
      rw [hdep] at hd
      exact nomatch hd

/-! ## Runs -/

theorem coherent_nil (b : Base K V M) (path : List K) (depends : K → K → Bool) : Coherent fs ⟨b, [], path, depends⟩ :=
  fun _ _ hk => nomatch hk

variable [DecidableEq M]

omit [DecidableEq K] [AddCommGroup V] in
theorem remove_toBase (s : Property K V M) (key : M) : (s.remove key).toBase = s.toBase.remove key := by
  unfold remove
  split
  case isTrue => rfl
  case isFalse hnone =>
    have hall : s.merged.filter (fun m => m.1 ≠ key) = s.merged := by
      apply filter_eq_self.mpr
      intro m hm
      exact decide_eq_true fun he => hnone ⟨m, hm, he⟩
    change s.toBase = { s.toBase with merged := s.merged.filter fun m => m.1 ≠ key }
    rw [hall]

theorem step_spec (h : Coherent fs s) (hpath : s.path = []) (a : PropertyAct K V M) (hrec : Recorded fs s a) :
    ∃ s', step fs s a = .ok (s', (s.toBase.step fs a).2) ∧
      s'.toBase = (s.toBase.step fs a).1 ∧ s'.path = [] ∧ Coherent fs s' := by
  cases a with
  | read key =>
    obtain ⟨s', hget, hs'⟩ := getter_spec h hpath key
    exact ⟨s', by rw [step, hget]; rfl, hs'.base, hs'.path.trans hpath, hs'.coherent⟩
  | write key value =>
    obtain ⟨s', hset, hbase, hpath', h'⟩ := setter_spec h hpath hrec
    exact ⟨s', by rw [step, hset]; rfl, hbase, hpath', h'⟩
  | add key property => exact ⟨s.add key property, rfl, rfl, hpath, coherent_nil _ _ _⟩
  | remove key =>
    refine ⟨s.remove key, rfl, remove_toBase s key, ?_⟩
    unfold remove
    split
    case isTrue => exact ⟨hpath, coherent_nil _ _ _⟩
    case isFalse => exact ⟨hpath, h⟩

/-- Each read gives what the formulas give from scratch, if each assignment meets the dependants in the cache as recorded
ones; no formula is caught in a loop. -/
theorem reads_fresh (fs : Formulas K V) (property : K → Option V) (acts : List (PropertyAct K V M))
    (h : Along (silent (step fs)) (Recorded fs) (new property) acts) :
    ∃ s', exec (step fs) (new property) acts =
      .ok (s', (specExec (Base.step fs) ⟨property, [], fun _ => none⟩ acts).2) := by
  have hstep : ∀ (s : Property K V M) (b : Base K V M) (a : PropertyAct K V M),
      (s.toBase = b ∧ s.path = [] ∧ Coherent fs s) → Recorded fs s a → ∃ s', step fs s a = .ok (s', (b.step fs a).2) ∧
        (s'.toBase = (b.step fs a).1 ∧ s'.path = [] ∧ Coherent fs s') := by
    intro s b a hs hrec
    obtain ⟨hb, hpath, hcoherent⟩ := hs
    subst hb
    exact step_spec hcoherent hpath a hrec
  obtain ⟨s', hrun, _⟩ := exec_simulates_along hstep acts (new property) ⟨property, [], fun _ => none⟩
    ⟨rfl, rfl, coherent_nil _ _ _⟩ h
  exact ⟨s', hrun⟩

theorem reads_fresh_baseAd : ∃ s' : Property PropertyKey ℚ ℕ, exec (step defaultFormula)
    (new fun k => if k = .id 1001 then some 100 else none)
    [.read .baseAd, .add 7 fun k => if k = .id 1011 then some 5000 else none, .read .baseAd, .write (.id 1001) 20,
      .read .ad] = .ok (s', [some 100, none, some 150, none, some 30]) := by
  obtain ⟨s', hs'⟩ := reads_fresh (M := ℕ) defaultFormula (fun k => if k = .id 1001 then some 100 else none)
    [.read .baseAd, .add 7 fun k => if k = .id 1011 then some 5000 else none, .read .baseAd, .write (.id 1001) 20,
      .read .ad] (by decide +kernel)
  refine ⟨s', hs'.trans (congrArg (fun os => Except.ok (s', os)) ?_)⟩
  decide +kernel

/-- The extra attack reads the base attack from the cache, so that it is not recorded as read through its raw id, and the
attack is 120 and not 40. -/
theorem stale_ad : ¬ ∃ s' : Property PropertyKey ℚ ℕ, exec (step defaultFormula)
    (new fun k => if k = .id 1001 then some 100 else if k = .id 1013 then some 10000 else none)
    [.read .ad, .write (.id 1001) 20, .read .ad] =
      .ok (s', (specExec (Base.step (M := ℕ) defaultFormula)
        ⟨fun k => if k = .id 1001 then some 100 else if k = .id 1013 then some 10000 else none, [], fun _ => none⟩
        [.read .ad, .write (.id 1001) 20, .read .ad]).2) := by
  intro ⟨s', hs'⟩
  have hcode : (exec (step (M := ℕ) defaultFormula)
      (new fun k => if k = .id 1001 then some 100 else if k = .id 1013 then some 10000 else none)
      [.read .ad, .write (.id 1001) 20, .read .ad]).toOption.map Prod.snd = some [some 200, none, some 120] := by
    decide +kernel
  have hscratch : (specExec (Base.step (M := ℕ) defaultFormula)
      ⟨fun k => if k = .id 1001 then some 100 else if k = .id 1013 then some 10000 else none, [], fun _ => none⟩
      [.read .ad, .write (.id 1001) 20, .read .ad]).2 = [some 200, none, some 40] := by
    decide +kernel
  rw [hs', hscratch] at hcode
  have hread : [some 200, none, some 40] = [some 200, none, some (120 : ℚ)] := some.inj hcode
  revert hread
  decide +kernel

end Property
end CServer.Fight
