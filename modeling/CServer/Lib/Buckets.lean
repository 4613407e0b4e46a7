import CServer.Lib.Memory
import CServer.Lib.Chain

/-! # Bucket tables of singly linked chains

The shape behind a chained hash table: an array of list heads and one `next` link for each element.
A pointer is an `Option ℕ`, the heap one function for each field, here only the links.
-/
namespace CServer.Lib
open List Function

structure BucketLinks where
  next : ℕ → Option ℕ
  buckets : ℕ → Option ℕ

/-! ## The operations -/

inductive Probe
  | hit
  | pass
  | stop
  deriving DecidableEq, Repr

def seek (next : ℕ → Option ℕ) (test : ℕ → Probe) :
    ℕ → Option ℕ → Option ℕ → Except Fault (Option ℕ × Option ℕ)
  | 0, _, _ => .error .diverges
  | _ + 1, prev, none => .ok (prev, none)
  | fuel + 1, prev, some a =>
    match test a with
    | .hit => .ok (prev, some a)
    | .pass => seek next test fuel (some a) (next a)
    | .stop => .ok (prev, none)

def BucketLinks.link (l : BucketLinks) (i : ℕ) (prev : Option ℕ) (e : ℕ) : BucketLinks :=
  match prev with
  | some p => { l with next := update (update l.next e (l.next p)) p (some e) }
  | none => ⟨update l.next e (l.buckets i), update l.buckets i (some e)⟩

def BucketLinks.unlink (l : BucketLinks) (i : ℕ) (prev : Option ℕ) (e : ℕ) : BucketLinks :=
  match prev with
  | some p => { l with next := update l.next p (l.next e) }
  | none => { l with buckets := update l.buckets i (l.next e) }

variable {σ : Type}

def drainChain (next : σ → ℕ → Option ℕ) (insert : σ → ℕ → Except Fault σ) :
    ℕ → Option ℕ → σ → Except Fault σ
  | 0, _, _ => .error .diverges
  | _ + 1, none, s => .ok s
  | fuel + 1, some cur, s => do
    let ite := next s cur
    let s ← insert s cur
    drainChain next insert fuel ite s

/-- The buckets of `old` from `i` on, `n` of them. -/
def drainTable (next : σ → ℕ → Option ℕ) (insert : σ → ℕ → Except Fault σ) (fuel : ℕ)
    (old : ℕ → Option ℕ) : ℕ → ℕ → σ → Except Fault σ
  | 0, _, s => .ok s
  | n + 1, i, s => do
    let s ← drainChain next insert fuel (old i) s
    drainTable next insert fuel old n (i + 1) s

def firstFrom (buckets : ℕ → Option ℕ) : ℕ → ℕ → Option ℕ
  | 0, _ => none
  | n + 1, i =>
    match buckets i with
    | some a => some a
    | none => firstFrom buckets n (i + 1)

def BucketLinks.advance (l : BucketLinks) (size : ℕ) (pos : ℕ → ℕ) : Option ℕ → Option ℕ
  | none => firstFrom l.buckets size 0
  | some a =>
    match l.next a with
    | some b => some b
    | none => firstFrom l.buckets (size - (pos a + 1)) (pos a + 1)

/-! ## The elements of a table -/

/-- Bucket `i` holds the chain of the elements `rows i`, all of which belong there. -/
structure BucketLinks.Rows (l : BucketLinks) (size : ℕ) (pos : ℕ → ℕ) (rows : ℕ → List ℕ) : Prop where
  chain : ∀ i < size, Chain l.next some none (l.buckets i) (rows i)
  nodup : ∀ i < size, (rows i).Nodup
  place : ∀ i < size, ∀ a ∈ rows i, pos a = i

def elements (rows : ℕ → List ℕ) (size : ℕ) : List ℕ := (List.range size).flatMap rows

variable {l : BucketLinks} {size : ℕ} {pos : ℕ → ℕ} {rows : ℕ → List ℕ} {next : ℕ → Option ℕ}

theorem mem_elements {a : ℕ} : a ∈ elements rows size ↔ ∃ i < size, a ∈ rows i := by
  simp [elements]

theorem elements_succ : elements rows (size + 1) = elements rows size ++ rows size := by
  simp [elements, range_succ]

theorem BucketLinks.Rows.mem_iff (h : l.Rows size pos rows) {a : ℕ} (hpos : pos a < size) :
    a ∈ elements rows size ↔ a ∈ rows (pos a) := by
  rw [mem_elements]
  constructor
  · rintro ⟨i, hi, ha⟩
    rwa [h.place i hi a ha]
  · intro ha
    exact ⟨pos a, hpos, ha⟩

theorem BucketLinks.Rows.elements_nodup (h : l.Rows size pos rows) : (elements rows size).Nodup := by
  refine nodup_flatMap.mpr ⟨fun i hi => h.nodup i (mem_range.mp hi), ?_⟩
  refine nodup_range.imp_of_mem ?_
  intro i j hi hj hne a hai haj
  have h1 := h.place i (mem_range.mp hi) a hai
  have h2 := h.place j (mem_range.mp hj) a haj
  exact hne (h1.symm.trans h2)

theorem rows_empty : BucketLinks.Rows ⟨next, fun _ => none⟩ size pos (fun _ => []) :=
  ⟨fun _ _ => rfl, fun _ _ => nodup_nil, fun _ _ a ha => absurd ha (by simp)⟩

theorem elements_empty : elements (fun _ => []) size = [] := by simp [elements]

theorem elements_update_perm {i : ℕ} {xs : List ℕ} {e : ℕ} (hi : i < size) (hxs : xs.Perm (e :: rows i)) :
    (elements (update rows i xs) size).Perm (e :: elements rows size) := by
  induction size with
  | zero => omega
  | succ n ih =>
    rw [elements_succ, elements_succ]
    by_cases hin : i = n
    · subst hin
      have hsame : elements (update rows i xs) i = elements rows i := by
        apply flatMap_congr
        intro j hj
        have hne : j ≠ i := Nat.ne_of_lt (mem_range.mp hj)
        rw [update_of_ne hne]
      rw [hsame, update_self]
      exact (hxs.append_left _).trans perm_middle
    · have hne : n ≠ i := fun he => hin he.symm
      rw [update_of_ne hne, ← cons_append]
      exact (ih (by omega)).append_right _

theorem elements_unlink_perm {i : ℕ} {ys zs : List ℕ} {e : ℕ} (hi : i < size) (hrow : rows i = ys ++ e :: zs) :
    (elements rows size).Perm (e :: elements (update rows i (ys ++ zs)) size) := by
  have hxs : (rows i).Perm (e :: update rows i (ys ++ zs) i) := by
    rw [update_self, hrow]
    exact perm_middle
  -- putting the element back gives the old table
  have hback := elements_update_perm hi hxs
  rwa [update_idem, update_eq_self] at hback

theorem elements_length_le (rows : ℕ → List ℕ) {i : ℕ} (hi : i < size) :
    (rows i).length ≤ (elements rows size).length := by
  induction size with
  | zero => omega
  | succ n ih =>
    rw [elements_succ, length_append]
    by_cases hin : i = n
    · subst hin
      omega
    · have := ih (by omega)
      omega

theorem BucketLinks.Rows.congr_next (h : l.Rows size pos rows) {a : ℕ} (ha : a ∉ elements rows size) (q : Option ℕ) :
    BucketLinks.Rows ⟨update l.next a q, l.buckets⟩ size pos rows := by
  refine ⟨fun i hi => (h.chain i hi).update ?_ q, h.nodup, h.place⟩
  exact fun hmem => ha (mem_elements.mpr ⟨i, hi, hmem⟩)

theorem BucketLinks.Rows.congr_pos (h : l.Rows size pos rows) {pos' : ℕ → ℕ}
    (hpos : ∀ a ∈ elements rows size, pos' a = pos a) : l.Rows size pos' rows := by
  refine ⟨h.chain, h.nodup, fun i hi a ha => ?_⟩
  rw [hpos a (mem_elements.mpr ⟨i, hi, ha⟩)]
  exact h.place i hi a ha

/-! ## Splicing -/

theorem Chain.relink {head stop stop' : Option ℕ} {ys : List ℕ} {p : ℕ}
    (h : Chain next some stop head ys) (hlast : ys.getLast? = some p) (hnodup : ys.Nodup) :
    Chain (Function.update next p stop') some stop' head ys := by
  obtain ⟨zs, rfl⟩ := List.getLast?_eq_some_iff.mp hlast
  obtain ⟨mid, h1, h2⟩ := Chain.append_iff.mp h
  have hp : p ∉ zs := by
    intro hmem
    exact (nodup_append.mp hnodup).2.2 p hmem p (by simp) rfl
  refine Chain.append_iff.mpr ⟨mid, h1.update hp _, h2.1, ?_⟩
  rw [update_self]
  exact rfl

theorem Chain.last_next {head stop : Option ℕ} {ys : List ℕ} {p : ℕ} (h : Chain next some stop head ys)
    (hlast : ys.getLast? = some p) : next p = stop := by
  obtain ⟨zs, rfl⟩ := List.getLast?_eq_some_iff.mp hlast
  obtain ⟨mid, -, h2⟩ := Chain.append_iff.mp h
  exact h2.2

theorem BucketLinks.Rows.link (h : l.Rows size pos rows) {i e : ℕ} (prev : Option ℕ) (ys zs : List ℕ)
    (hi : i < size) (hrow : rows i = ys ++ zs) (hprev : prev = ys.getLast?)
    (hnew : e ∉ elements rows size) (hpos : pos e = i) :
    (l.link i prev e).Rows size pos (update rows i (ys ++ e :: zs)) := by
  have hout : ∀ j < size, e ∉ rows j := fun j hj he => hnew (mem_elements.mpr ⟨j, hj, he⟩)
  have hei := hout i hi
  have hnodup := h.nodup i hi
  have hchain := h.chain i hi
  rw [hrow] at hei hnodup hchain
  obtain ⟨mid, h1, h2⟩ := Chain.append_iff.mp hchain
  have hys : e ∉ ys := fun he => hei (mem_append_left _ he)
  have hzs : e ∉ zs := fun he => hei (mem_append_right _ he)
  refine ⟨fun j hj => ?_, fun j hj => ?_, fun j hj a ha => ?_⟩
  · by_cases hji : j = i
    · subst hji
      rw [update_self]
      cases prev with
      | none =>
        have hnil : ys = [] := List.getLast?_eq_none_iff.mp hprev.symm
        subst hnil
        simp only [BucketLinks.link, update_self]
        refine ⟨rfl, ?_⟩
        rw [update_self]
        exact hchain.update hei _
      | some p =>
        have hep : e ≠ p := by
          rintro rfl
          exact hys (List.mem_of_getLast? hprev.symm)
        have hpzs : p ∉ zs := fun hp =>
          (nodup_append.mp hnodup).2.2 p (List.mem_of_getLast? hprev.symm) p hp rfl
        simp only [BucketLinks.link]
        refine Chain.append_iff.mpr ⟨some e, ?_, rfl, ?_⟩
        · exact (h1.update hys _).relink hprev.symm (nodup_append.mp hnodup).1
        · rw [update_of_ne hep, update_self, h1.last_next hprev.symm]
          exact (h2.update hzs _).update hpzs _
    · rw [update_of_ne hji]
      have hrest := (h.chain j hj).update (hout j hj)
      cases prev with
      | none =>
        simp only [BucketLinks.link, update_of_ne hji]
        exact hrest _
      | some p =>
        have hpj : p ∉ rows j := by
          intro hp
          have hpi : p ∈ rows i := by
            rw [hrow]
            exact mem_append_left _ (List.mem_of_getLast? hprev.symm)
          exact hji ((h.place j hj p hp).symm.trans (h.place i hi p hpi))
        simp only [BucketLinks.link]
        exact (hrest _).update hpj _
  · by_cases hji : j = i
    · subst hji
      rw [update_self]
      exact nodup_middle.mpr (nodup_cons.mpr ⟨hei, hnodup⟩)
    · rw [update_of_ne hji]
      exact h.nodup j hj
  · by_cases hji : j = i
    · subst hji
      rw [update_self] at ha
      rcases mem_append.mp ha with ha | ha
      · exact h.place j hj a (by rw [hrow]; exact mem_append_left _ ha)
      · rcases mem_cons.mp ha with rfl | ha
        · exact hpos
        · exact h.place j hj a (by rw [hrow]; exact mem_append_right _ ha)
    · rw [update_of_ne hji] at ha
      exact h.place j hj a ha

theorem BucketLinks.link_next {i e a : ℕ} {prev : Option ℕ} (hae : a ≠ e) (hap : prev ≠ some a) :
    (l.link i prev e).next a = l.next a := by
  cases prev with
  | none => simp only [BucketLinks.link, update_of_ne hae]
  | some p =>
    have hpa : a ≠ p := by
      rintro rfl
      exact hap rfl
    simp only [BucketLinks.link, update_of_ne hpa, update_of_ne hae]

theorem BucketLinks.Rows.unlink (h : l.Rows size pos rows) {i e : ℕ} {prev : Option ℕ} {ys zs : List ℕ} (hi : i < size)
    (hrow : rows i = ys ++ e :: zs) (hprev : prev = ys.getLast?) :
    (l.unlink i prev e).Rows size pos (update rows i (ys ++ zs)) := by
  have hnodup := h.nodup i hi
  have hchain := h.chain i hi
  rw [hrow] at hnodup hchain
  obtain ⟨mid, h1, -, h2⟩ := Chain.append_iff.mp hchain
  have hsub : (ys ++ zs).Sublist (ys ++ e :: zs) := (sublist_cons_self e zs).append_left ys
  refine ⟨fun j hj => ?_, fun j hj => ?_, fun j hj a ha => ?_⟩
  · by_cases hji : j = i
    · subst hji
      rw [update_self]
      cases prev with
      | none =>
        have hnil : ys = [] := List.getLast?_eq_none_iff.mp hprev.symm
        subst hnil
        simp only [BucketLinks.unlink, update_self]
        exact h2
      | some p =>
        have hpzs : p ∉ zs := fun hp =>
          (nodup_append.mp hnodup).2.2 p (List.mem_of_getLast? hprev.symm) p (mem_cons_of_mem _ hp) rfl
        simp only [BucketLinks.unlink]
        exact Chain.append_iff.mpr ⟨l.next e, h1.relink hprev.symm (nodup_append.mp hnodup).1, h2.update hpzs _⟩
    · rw [update_of_ne hji]
      cases prev with
      | none =>
        simp only [BucketLinks.unlink, update_of_ne hji]
        exact h.chain j hj
      | some p =>
        have hpj : p ∉ rows j := by
          intro hp
          have hpi : p ∈ rows i := by
            rw [hrow]
            exact mem_append_left _ (List.mem_of_getLast? hprev.symm)
          exact hji ((h.place j hj p hp).symm.trans (h.place i hi p hpi))
        simp only [BucketLinks.unlink]
        exact (h.chain j hj).update hpj _
  · by_cases hji : j = i
    · subst hji
      rw [update_self]
      exact hnodup.sublist hsub
    · rw [update_of_ne hji]
      exact h.nodup j hj
  · by_cases hji : j = i
    · subst hji
      rw [update_self] at ha
      exact h.place j hj a (by rw [hrow]; exact hsub.subset ha)
    · rw [update_of_ne hji] at ha
      exact h.place j hj a ha

theorem seek_spec (test : ℕ → Probe) {xs : List ℕ} : ∀ {fuel : ℕ} (prev : Option ℕ) {head : Option ℕ}, xs.length < fuel →
    Chain next some none head xs → ∃ ys, (∀ a ∈ ys, test a = .pass) ∧
      ((∃ a zs, xs = ys ++ a :: zs ∧ test a = .hit ∧
          seek next test fuel prev head = .ok (ys.getLast?.or prev, some a)) ∨
        ∃ zs, xs = ys ++ zs ∧ (∀ a ∈ zs.head?, test a = .stop) ∧
          seek next test fuel prev head = .ok (ys.getLast?.or prev, none)) := by
  induction xs with
  | nil =>
    intro fuel prev head hfuel h
    obtain ⟨n, rfl⟩ := exists_succ_of_lt hfuel
    have hhead : head = none := h
    subst hhead
    exact ⟨[], by simp, .inr ⟨[], rfl, by simp, rfl⟩⟩
  | cons x xs ih =>
    intro fuel prev head hfuel h
    obtain ⟨n, rfl⟩ := exists_succ_of_lt hfuel
    obtain ⟨hhead, htail⟩ := h
    subst hhead
    cases htest : test x with
    | hit => exact ⟨[], by simp, .inl ⟨x, xs, rfl, htest, by simp [seek, htest]⟩⟩
    | stop => exact ⟨[], by simp, .inr ⟨x :: xs, rfl, by simp [htest], by simp [seek, htest]⟩⟩
    | pass =>
      have hlen : xs.length < n := by
        rw [length_cons] at hfuel
        omega
      obtain ⟨ys, hpass, hcase⟩ := ih (some x) hlen htail
      have hlast : ys.getLast?.or (some x) = (x :: ys).getLast?.or prev := by
        cases ys with
        | nil => rfl
        | cons y ys => rw [List.getLast?_cons_cons, List.getLast?_cons, Option.some_or, Option.some_or]
      refine ⟨x :: ys, ?_, ?_⟩
      · intro a ha
        rcases mem_cons.mp ha with rfl | ha
        · exact htest
        · exact hpass a ha
      · rcases hcase with ⟨a, zs, rfl, ha, hseek⟩ | ⟨zs, rfl, hstop, hseek⟩
        · exact .inl ⟨a, zs, rfl, ha, by simp only [seek, htest, hseek, hlast]⟩
        · exact .inr ⟨zs, rfl, hstop, by simp only [seek, htest, hseek, hlast]⟩

/-! ## Rehashing -/

section Drain

variable {nextOf : σ → ℕ → Option ℕ} {insert : σ → ℕ → Except Fault σ} {I : List ℕ → σ → Prop}

theorem drainChain_ok
    (hstep : ∀ s cur rest, I (cur :: rest) s →
      ∃ s', insert s cur = .ok s' ∧ I rest s' ∧ ∀ a ∈ rest, nextOf s' a = nextOf s a)
    (xs ys : List ℕ) : ∀ {fuel : ℕ} {head : Option ℕ} {s : σ}, xs.length < fuel →
      Chain (nextOf s) some none head xs → I (xs ++ ys) s →
      ∃ s', drainChain nextOf insert fuel head s = .ok s' ∧ I ys s' ∧ ∀ a ∈ ys, nextOf s' a = nextOf s a := by
  induction xs with
  | nil =>
    intro fuel head s hfuel h hI
    obtain ⟨n, rfl⟩ := exists_succ_of_lt hfuel
    have hhead : head = none := h
    subst hhead
    exact ⟨s, rfl, hI, fun _ _ => rfl⟩
  | cons x xs ih =>
    intro fuel head s hfuel h hI
    obtain ⟨n, rfl⟩ := exists_succ_of_lt hfuel
    obtain ⟨hhead, htail⟩ := h
    subst hhead
    obtain ⟨s₁, hins, hI₁, hsame⟩ := hstep s x (xs ++ ys) hI
    have hlen : xs.length < n := by
      rw [length_cons] at hfuel
      omega
    have htail₁ : Chain (nextOf s₁) some none (nextOf s x) xs :=
      htail.congr (fun a ha => hsame a (mem_append_left _ ha))
    obtain ⟨s', hdrain, hI', hsame'⟩ := ih hlen htail₁ hI₁
    refine ⟨s', ?_, hI', fun a ha => ?_⟩
    · simp only [drainChain, hins, ok_bind]
      exact hdrain
    · rw [hsame' a ha, hsame a (mem_append_right _ ha)]

theorem drainTable_ok
    (hstep : ∀ s cur rest, I (cur :: rest) s →
      ∃ s', insert s cur = .ok s' ∧ I rest s' ∧ ∀ a ∈ rest, nextOf s' a = nextOf s a)
    {fuel : ℕ} {old : ℕ → Option ℕ} {rows : ℕ → List ℕ} (n : ℕ) : ∀ {i : ℕ} {s : σ},
      I ((List.range' i n).flatMap rows) s →
      (∀ j, i ≤ j → j < i + n → (rows j).length < fuel ∧ Chain (nextOf s) some none (old j) (rows j)) →
      ∃ s', drainTable nextOf insert fuel old n i s = .ok s' ∧ I [] s' := by
  induction n with
  | zero =>
    intro i s hI _
    exact ⟨s, rfl, hI⟩
  | succ n ih =>
    intro i s hI hrows
    rw [range'_succ, flatMap_cons] at hI
    obtain ⟨hlen, hchain⟩ := hrows i (le_refl i) (by omega)
    obtain ⟨s₁, hdrain, hI₁, hsame⟩ := drainChain_ok hstep _ _ hlen hchain hI
    obtain ⟨s', hrest, hI'⟩ := ih hI₁ (by
      intro j hij hjn
      obtain ⟨hlen', hchain'⟩ := hrows j (by omega) (by omega)
      refine ⟨hlen', hchain'.congr fun a ha => hsame a ?_⟩
      exact mem_flatMap.mpr ⟨j, mem_range'_1.mpr ⟨hij, by omega⟩, ha⟩)
    refine ⟨s', ?_, hI'⟩
    simp only [drainTable, hdrain, ok_bind]
    exact hrest

theorem drainTable_error {fault : Fault} {s : σ} (hins : ∀ a, insert s a = .error fault) {fuel : ℕ}
    {old : ℕ → Option ℕ} (n : ℕ) : ∀ {i : ℕ}, (∃ j, i ≤ j ∧ j < i + n ∧ old j ≠ none) →
      drainTable nextOf insert (fuel + 1) old n i s = .error fault := by
  induction n with
  | zero =>
    rintro i ⟨j, h1, h2, -⟩
    omega
  | succ n ih =>
    rintro i ⟨j, h1, h2, h3⟩
    cases hold : old i with
    | some a =>
      simp only [drainTable, drainChain, hold, hins]
      rfl
    | none =>
      have hji : j ≠ i := by
        rintro rfl
        exact h3 hold
      simp only [drainTable, drainChain, hold, ok_bind]
      exact ih ⟨j, by omega, by omega, h3⟩

end Drain

/-! ## Iterating -/

theorem firstFrom_eq {buckets : ℕ → Option ℕ} {j a : ℕ} (hj : buckets j = some a) (n : ℕ) :
    ∀ {i : ℕ}, i ≤ j → j < i + n → (∀ x, i ≤ x → x < j → buckets x = none) → firstFrom buckets n i = some a := by
  induction n with
  | zero => exact fun hij hjn => absurd hjn (by omega)
  | succ n ih =>
    intro i hij hjn hnone
    rw [firstFrom]
    obtain rfl | hlt := Nat.eq_or_lt_of_le hij
    · rw [hj]
    · rw [hnone i (le_refl i) hlt]
      exact ih hlt (by omega) fun x hx => hnone x (by omega)

theorem BucketLinks.Rows.row_advance (size i : ℕ) {xs : List ℕ} : ∀ {head : Option ℕ}, xs ≠ [] →
    Chain l.next some none head xs → (∀ a ∈ xs, pos a = i) →
    Chain (fun a => l.advance size pos (some a)) some (firstFrom l.buckets (size - (i + 1)) (i + 1)) head xs := by
  induction xs with
  | nil => exact fun hne => absurd rfl hne
  | cons x xs ih =>
    intro head _ h hpos
    obtain ⟨hhead, htail⟩ := h
    refine ⟨hhead, ?_⟩
    cases xs with
    | nil =>
      have hlast : l.next x = none := htail
      show l.advance size pos (some x) = _
      rw [BucketLinks.advance, hlast, hpos x (by simp)]
    | cons y xs =>
      have hnext : l.next x = some y := htail.1
      have hadv : l.advance size pos (some x) = some y := by simp only [BucketLinks.advance, hnext]
      simp only [hadv, ← hnext]
      exact ih (by simp) htail (fun a ha => hpos a (mem_cons_of_mem _ ha))

theorem BucketLinks.Rows.advance_from (h : l.Rows size pos rows) (n : ℕ) : ∀ i, i + n = size →
    Chain (fun a => l.advance size pos (some a)) some none (firstFrom l.buckets n i)
      ((List.range' i n).flatMap rows) := by
  induction n with
  | zero => exact fun _ _ => rfl
  | succ n ih =>
    intro i hi
    have hrest := ih (i + 1) (by omega)
    have hchain := h.chain i (by omega)
    rw [range'_succ, flatMap_cons]
    cases hrow : rows i with
    | nil =>
      rw [hrow] at hchain
      have hnone : l.buckets i = none := hchain
      simp only [firstFrom, hnone, nil_append]
      exact hrest
    | cons a as =>
      rw [hrow] at hchain
      have hsome : l.buckets i = some a := hchain.1
      have hstop : size - (i + 1) = n := by omega
      have hseg := BucketLinks.Rows.row_advance size i (by simp) hchain
        (fun b hb => h.place i (by omega) b (by rw [hrow]; exact hb))
      rw [hstop] at hseg
      simp only [firstFrom, hsome] at hseg ⊢
      exact Chain.append_iff.mpr ⟨_, hseg, hrest⟩

theorem BucketLinks.Rows.advance_all (h : l.Rows size pos rows) :
    Chain (fun a => l.advance size pos (some a)) some none (l.advance size pos none) (elements rows size) := by
  rw [elements, range_eq_range']
  exact h.advance_from size 0 (by omega)

end CServer.Lib
