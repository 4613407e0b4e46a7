import CServer.Lib.Buckets
import CServer.Lib.Exec

/-! # Bucket tables at other addresses

What the operations on a bucket table do depends on the shape of the table and not on where its elements lie:
`l.Moved n d size l'` says that the elements below `n` of the table `l` lie `d` further on in `l'`, linked in the
same way, and the operations keep this. `Moved n d p p'` says it of two pointers.
-/
namespace CServer.Lib
open Function

/-- `p` points to one of the first `n` addresses or is null, and `p'` points `d` further on. -/
def Moved (n d : ℕ) (p p' : Option ℕ) : Prop := p' = p.map (· + d) ∧ ∀ a ∈ p, a < n

structure BucketLinks.Moved (n d size : ℕ) (l l' : BucketLinks) : Prop where
  next : ∀ a < n, Lib.Moved n d (l.next a) (l'.next (a + d))
  buckets : ∀ i < size, Lib.Moved n d (l.buckets i) (l'.buckets i)

variable {n d size : ℕ} {p p' : Option ℕ} {l l' : BucketLinks}

theorem moved_none : Moved n d none none := ⟨rfl, fun _ ha => nomatch ha⟩

theorem moved_some {a : ℕ} (ha : a < n) : Moved n d (some a) (some (a + d)) :=
  ⟨rfl, fun _ hb => Option.mem_some_iff.mp hb ▸ ha⟩

theorem Moved.cases (h : Moved n d p p') : (p = none ∧ p' = none) ∨ ∃ a < n, p = some a ∧ p' = some (a + d) := by
  obtain ⟨rfl, hlt⟩ := h
  cases p with
  | none => exact .inl ⟨rfl, rfl⟩
  | some a => exact .inr ⟨a, hlt a rfl, rfl, rfl⟩

theorem Moved.mono {n' : ℕ} (h : Moved n d p p') (hn : n ≤ n') : Moved n' d p p' :=
  ⟨h.1, fun a ha => Nat.lt_of_lt_of_le (h.2 a ha) hn⟩

theorem update_moved {f f' : ℕ → Option ℕ} {x : ℕ} (hf : ∀ a < n, a ≠ x → Moved n d (f a) (f' (a + d)))
    (hp : Moved n d p p') : ∀ a < n, Moved n d (update f x p a) (update f' (x + d) p' (a + d)) := by
  intro a ha
  by_cases hax : a = x
  · subst hax
    rw [update_self, update_self]
    exact hp
  · have hne : a + d ≠ x + d := fun he => hax (Nat.add_right_cancel he)
    rw [update_of_ne hax, update_of_ne hne]
    exact hf a ha hax

theorem update_buckets_moved {f f' : ℕ → Option ℕ} (hf : ∀ i < size, Moved n d (f i) (f' i)) {x : ℕ} (hp : Moved n d p p') :
    ∀ i < size, Moved n d (update f x p i) (update f' x p' i) := by
  intro i hi
  by_cases hix : i = x
  · subst hix
    rw [update_self, update_self]
    exact hp
  · rw [update_of_ne hix, update_of_ne hix]
    exact hf i hi

/-! ## Searching and splicing -/

theorem seek_moved {next next' : ℕ → Option ℕ} (hnext : ∀ a < n, Moved n d (next a) (next' (a + d)))
    {test test' : ℕ → Probe} (htest : ∀ a < n, test' (a + d) = test a) (fuel : ℕ) :
    ∀ {prev prev' cur cur' : Option ℕ}, Moved n d prev prev' → Moved n d cur cur' →
      Alike (fun r r' => Moved n d r.1 r'.1 ∧ Moved n d r.2 r'.2) (seek next test fuel prev cur)
        (seek next' test' fuel prev' cur') := by
  induction fuel with
  | zero => exact fun _ _ => .error _
  | succ fuel ih =>
    intro prev prev' cur cur' hprev hcur
    rcases hcur.cases with ⟨rfl, rfl⟩ | ⟨a, ha, rfl, rfl⟩
    · exact .ok ⟨hprev, moved_none⟩
    · rw [seek, seek, htest a ha]
      cases test a with
      | hit => exact .ok ⟨hprev, moved_some ha⟩
      | pass => exact ih (moved_some ha) (hnext a ha)
      | stop => exact .ok ⟨hprev, moved_none⟩

theorem BucketLinks.Moved.link (h : l.Moved n d size l') {i e : ℕ} (hi : i < size) (he : e < n) :
    (l.link i none e).Moved n d size (l'.link i none (e + d)) :=
  ⟨update_moved (fun a ha _ => h.next a ha) (h.buckets i hi), update_buckets_moved h.buckets (moved_some he)⟩

theorem BucketLinks.Moved.unlink (h : l.Moved n d size l') {i e : ℕ} (he : e < n) (hp : Lib.Moved n d p p') :
    (l.unlink i p e).Moved n d size (l'.unlink i p' (e + d)) := by
  rcases hp.cases with ⟨rfl, rfl⟩ | ⟨a, ha, rfl, rfl⟩
  · exact ⟨h.next, update_buckets_moved h.buckets (h.next e he)⟩
  · exact ⟨update_moved (fun a ha _ => h.next a ha) (h.next e he), h.buckets⟩

section Drain

variable {σ τ : Type} {R : σ → τ → Prop} {next : σ → ℕ → Option ℕ} {next' : τ → ℕ → Option ℕ}
  {insert : σ → ℕ → Except Fault σ} {insert' : τ → ℕ → Except Fault τ}

theorem drainChain_moved (hnext : ∀ s t, R s t → ∀ a < n, Moved n d (next s a) (next' t (a + d)))
    (hins : ∀ s t a, R s t → a < n → Alike R (insert s a) (insert' t (a + d))) (fuel : ℕ) :
    ∀ {head head' : Option ℕ} {s : σ} {t : τ}, Moved n d head head' → R s t →
      Alike R (drainChain next insert fuel head s) (drainChain next' insert' fuel head' t) := by
  induction fuel with
  | zero => exact fun _ _ => .error _
  | succ fuel ih =>
    intro head head' s t hhead h
    rcases hhead.cases with ⟨rfl, rfl⟩ | ⟨a, ha, rfl, rfl⟩
    · exact .ok h
    · exact (hins s t a h ha).bind fun _ _ h' => ih (hnext s t h a ha) h'

theorem drainTable_moved (hnext : ∀ s t, R s t → ∀ a < n, Moved n d (next s a) (next' t (a + d)))
    (hins : ∀ s t a, R s t → a < n → Alike R (insert s a) (insert' t (a + d))) (fuel : ℕ) {old old' : ℕ → Option ℕ}
    (hold : ∀ i < size, Moved n d (old i) (old' i)) (count : ℕ) :
    ∀ {i : ℕ} {s : σ} {t : τ}, i + count ≤ size → R s t →
      Alike R (drainTable next insert fuel old count i s) (drainTable next' insert' fuel old' count i t) := by
  induction count with
  | zero => exact fun _ h => .ok h
  | succ count ih =>
    intro i s t hi h
    exact (drainChain_moved hnext hins fuel (hold i (by omega)) h).bind fun _ _ h' => ih (by omega) h'

end Drain

theorem firstFrom_moved {buckets buckets' : ℕ → Option ℕ} (hbuckets : ∀ i < size, Moved n d (buckets i) (buckets' i))
    (count : ℕ) : ∀ {i : ℕ}, i + count ≤ size → Moved n d (firstFrom buckets count i) (firstFrom buckets' count i) := by
  induction count with
  | zero => exact fun _ => moved_none
  | succ count ih =>
    intro i hi
    rw [firstFrom, firstFrom]
    rcases (hbuckets i (by omega)).cases with ⟨hnone, hnone'⟩ | ⟨a, ha, hsome, hsome'⟩
    · rw [hnone, hnone']
      exact ih (by omega)
    · rw [hsome, hsome']
      exact moved_some ha

theorem BucketLinks.Moved.advance (h : l.Moved n d size l') {pos pos' : ℕ → ℕ} (hpos : ∀ a < n, pos' (a + d) = pos a)
    (hp : Lib.Moved n d p p') : Lib.Moved n d (l.advance size pos p) (l'.advance size pos' p') := by
  rcases hp.cases with ⟨rfl, rfl⟩ | ⟨a, ha, rfl, rfl⟩
  · exact firstFrom_moved h.buckets size (by omega)
  · rw [BucketLinks.advance, BucketLinks.advance, hpos a ha]
    rcases (h.next a ha).cases with ⟨hnone, hnone'⟩ | ⟨b, hb, hsome, hsome'⟩
    · rw [hnone, hnone']
      by_cases hlast : pos a + 1 ≤ size
      · exact firstFrom_moved h.buckets _ (by omega)
      · have hzero : size - (pos a + 1) = 0 := by omega
        rw [hzero]
        exact moved_none
    · rw [hsome, hsome']
      exact moved_some hb

end CServer.Lib
