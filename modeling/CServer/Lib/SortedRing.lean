import CServer.Lib.DList

/-! # Circular lists kept in the order of a key

A node is put into a ring whose keys do not increase, in front of the first node with a smaller key or behind one that
has no larger key behind it. The walk goes along the `next` pointers and is given as many steps as there may be nodes.
-/
namespace CServer.Lib
open Function List Option

def dlistInsertBefore (h : DHeap) (l n : ℕ) : Except Fault DHeap := do
  h.access n
  assert (decide (h.next n = none ∧ h.prev n = none))
  h.access l
  match h.prev l with
  | none => .error .outOfBounds
  | some p => do
    h.access p
    .ok { h with
      next := update (update h.next n (some l)) p (some n)
      prev := update (update h.prev n (some p)) l (some n) }

def dlistInsertAfter (h : DHeap) (l n : ℕ) : Except Fault DHeap := do
  h.access n
  assert (decide (h.next n = none ∧ h.prev n = none))
  h.access l
  match h.next l with
  | none => .error .outOfBounds
  | some q => do
    h.access q
    .ok { h with
      next := update (update h.next n (some q)) l (some n)
      prev := update (update h.prev n (some l)) q (some n) }

def dlistNext (h : DHeap) : Option ℕ → Option ℕ → Except Fault (Option ℕ)
  | none, _ => .ok none
  | some head, none => .ok (some head)
  | some head, some cur => do
    h.access cur
    .ok (if h.next cur ≠ some head then h.next cur else none)

/-- The walk from behind `it` on, along the list that begins with `head`. -/
def insertLoop {α : Type} [LinearOrder α] (key : ℕ → α) (h : DHeap) (head n : ℕ) : ℕ → Option ℕ → Except Fault (DHeap × Option ℕ)
  | 0, _ => .error .diverges
  | k + 1, it => do
    match ← dlistNext h (some head) it with
    | none => .ok (h, some head)
    | some it => do
      if key n > key it then do
        let h ← dlistInsertBefore (dlistInit h n) it n
        return (h, if it = head then some n else some head)
      else do
        let next ← dlistNext h (some head) (some it)
        if next.all (fun next => key n ≥ key next) then do
          let h ← dlistInsertAfter (dlistInit h n) it n
          return (h, some head)
        else insertLoop key h head n k (some it)

def dlistInsertSorted {α : Type} [LinearOrder α] (key : ℕ → α) (fuel : ℕ) (h : DHeap) (l : Option ℕ) (n : ℕ) : Except Fault (DHeap × Option ℕ) :=
  match l with
  | none => dlistInsertTail (dlistInit h n) none n
  | some head => insertLoop key h head n fuel none

variable {h : DHeap} {xs ys zs : List ℕ} {n c : ℕ}

/-! ## Walking -/

theorem dlistNext_start (l : Option ℕ) : dlistNext h l none = .ok l := by
  cases l <;> rfl

theorem dlistNext_after (hr : DRing h (ys ++ c :: zs)) :
    dlistNext h (ys ++ c :: zs).head? (some c) = .ok zs.head? := by
  have hrot : DRing h (c :: (zs ++ ys)) := by
    have := hr.rotate
    rwa [cons_append] at this
  have hnext := hrot.next_of
  have hc := hr.alive c (by simp)
  obtain ⟨head, hhead⟩ : ∃ head, (ys ++ c :: zs).head? = some head := ⟨_, List.head?_eq_some_head (by simp)⟩
  rw [hhead]
  simp only [dlistNext, DHeap.access_ok hc, ok_bind, hnext]
  cases zs with
  | nil =>
    have hfirst : ([] ++ ys ++ [c]).head? = some head := by
      rw [← hhead]
      cases ys <;> rfl
    rw [hfirst]
    simp
  | cons z zs =>
    -- the first node of the list is not a later one
    have hne : z ≠ head := by
      rintro rfl
      have hnodup := hr.nodup
      cases ys with
      | nil =>
        obtain rfl : c = z := some.inj hhead
        simp at hnodup
      | cons y ys =>
        obtain rfl : y = z := some.inj hhead
        simp at hnodup
    simp [hne]

/-! ## Inserting -/

structure Inserted (h h' : DHeap) (xs ys zs : List ℕ) (n : ℕ) : Prop where
  ring : DRing h' (ys ++ n :: zs)
  alive : h'.alive = h.alive
  frame : ∀ a, a ∉ xs → a ≠ n → h'.next a = h.next a ∧ h'.prev a = h.prev a

theorem dlistInit_null (h : DHeap) (n : ℕ) : (dlistInit h n).next n = none ∧ (dlistInit h n).prev n = none :=
  ⟨update_self .., update_self ..⟩

theorem dlistInit_other {a : ℕ} (ha : a ≠ n) : (dlistInit h n).next a = h.next a ∧ (dlistInit h n).prev a = h.prev a :=
  ⟨update_of_ne ha _ _, update_of_ne ha _ _⟩

theorem DRing.init (hr : DRing h xs) (hn : n ∉ xs) : DRing (dlistInit h n) xs := by
  refine hr.congr fun a ha => ⟨rfl, ?_⟩
  exact dlistInit_other fun he => hn (he ▸ ha)

theorem dlistInsertBefore_ok (hr : DRing h (ys ++ c :: zs)) (hn : n ∉ ys ++ c :: zs) (halive : h.alive n = true) :
    ∃ h', dlistInsertBefore (dlistInit h n) c n = .ok h' ∧ Inserted h h' (ys ++ c :: zs) ys (c :: zs) n := by
  have hn' : n ∉ c :: zs ++ ys := fun hmem => hn (mem_append.mpr (mem_append.mp hmem).symm)
  have hrot : DRing (dlistInit h n) (c :: zs ++ ys) := (hr.init hn).rotate
  obtain ⟨h', hins, hring, halive', hframe⟩ := dlistInsertTail_ok hrot hn' halive (dlistInit_null h n)
  refine ⟨h', ?_, ?_, halive', fun a ha han => ?_⟩
  · simp only [cons_append, List.head?_cons, dlistInsertTail] at hins
    simp only [dlistInsertBefore]
    revert hins
    cases (dlistInit h n).access n <;> cases assert (decide ((dlistInit h n).next n = none ∧ (dlistInit h n).prev n = none)) <;>
      cases (dlistInit h n).access c <;> cases (dlistInit h n).prev c <;> simp [bind, Except.bind]
    rename_i p
    cases (dlistInit h n).access p <;> simp
  · have hback := (show DRing h' (c :: zs ++ (ys ++ [n])) by rw [← append_assoc]; exact hring).rotate
    simpa using hback
  · have hout : a ∉ c :: zs ++ ys := fun hmem => ha (mem_append.mpr (mem_append.mp hmem).symm)
    have h1 := hframe a hout han
    have h2 := @dlistInit_other h n a han
    exact ⟨h1.1.trans h2.1, h1.2.trans h2.2⟩

theorem dlistInsertAfter_eq {q : ℕ} (hc : h.alive c = true) (hq : h.alive q = true) (hnext : h.next c = some q)
    (hprev : h.prev q = some c) : dlistInsertAfter h c n = dlistInsertBefore h q n := by
  simp only [dlistInsertAfter, dlistInsertBefore, DHeap.access_ok hc, DHeap.access_ok hq, hnext, hprev, ok_bind]

theorem dlistInsertAfter_ok (hr : DRing h (ys ++ c :: zs)) (hn : n ∉ ys ++ c :: zs) (halive : h.alive n = true) :
    ∃ h', dlistInsertAfter (dlistInit h n) c n = .ok h' ∧ Inserted h h' (ys ++ c :: zs) (ys ++ [c]) zs n := by
  have hinit := hr.init hn
  have hc := hinit.alive c (by simp)
  have hassoc : ys ++ c :: zs = ys ++ [c] ++ zs := by simp
  -- the circle written from the next node on
  obtain ⟨q, rest, hq, hlast, hrot⟩ : ∃ q rest, zs ++ (ys ++ [c]) = q :: rest ∧ (q :: rest).getLast? = some c ∧
      DRing (dlistInit h n) (q :: rest) := by
    have hrot : DRing (dlistInit h n) (zs ++ (ys ++ [c])) := by
      rw [hassoc] at hinit
      exact hinit.rotate
    have hlast : (zs ++ (ys ++ [c])).getLast? = some c := by simp
    cases hcase : zs ++ (ys ++ [c]) with
    | nil => simp at hcase
    | cons q rest => exact ⟨q, rest, rfl, hcase ▸ hlast, hcase ▸ hrot⟩
  have hqalive := hrot.alive q (by simp)
  have hlinked := hrot.wrap c hlast q rfl
  rw [dlistInsertAfter_eq hc hqalive hlinked.1 hlinked.2]
  cases zs with
  | cons z zs =>
    obtain ⟨rfl, -⟩ := cons.inj hq
    rw [hassoc] at hr hn ⊢
    exact dlistInsertBefore_ok hr hn halive
  | nil =>
    -- behind the last node is in front of the first one
    have hhead : ys ++ [c] = [] ++ q :: rest := hq
    rw [show ys ++ c :: [] = [] ++ q :: rest from hhead] at hr hn ⊢
    obtain ⟨h', hins, hinserted⟩ := dlistInsertBefore_ok hr hn halive
    refine ⟨h', hins, ?_, hinserted.alive, hinserted.frame⟩
    have hring := (show DRing h' ([n] ++ (q :: rest)) from hinserted.ring).rotate
    exact hring

section Sorted
variable {α : Type} [LinearOrder α] {key : ℕ → α}

def Falling (key : ℕ → α) (xs : List ℕ) : Prop := xs.Pairwise fun a b => key b ≤ key a

theorem Falling.insert (hs : Falling key (ys ++ zs)) (hy : ∀ a ∈ ys, key n ≤ key a) (hz : ∀ a ∈ zs, key a ≤ key n) :
    Falling key (ys ++ n :: zs) := by
  obtain ⟨h1, h2, h3⟩ := pairwise_append.mp hs
  refine pairwise_append.mpr ⟨h1, pairwise_cons.mpr ⟨hz, h2⟩, fun a ha b hb => ?_⟩
  obtain rfl | hb := mem_cons.mp hb
  · exact hy a ha
  · exact h3 a ha b hb

structure SortedIn (key : ℕ → α) (h : DHeap) (xs : List ℕ) (n : ℕ) (h' : DHeap) (xs' : List ℕ) : Prop where
  ring : DRing h' xs'
  falling : Falling key xs'
  perm : xs'.Perm (n :: xs)
  alive : h'.alive = h.alive
  frame : ∀ a, a ∉ xs → a ≠ n → h'.next a = h.next a ∧ h'.prev a = h.prev a

theorem Inserted.sortedIn {h' : DHeap} (hi : Inserted h h' (ys ++ zs) ys zs n) (hs : Falling key (ys ++ zs))
    (hy : ∀ a ∈ ys, key n ≤ key a) (hz : ∀ a ∈ zs, key a ≤ key n) :
    SortedIn key h (ys ++ zs) n h' (ys ++ n :: zs) :=
  ⟨hi.ring, hs.insert hy hz, perm_middle, hi.alive, hi.frame⟩

theorem le_snoc {k : α} (hy : ∀ a ∈ ys, k ≤ key a) (hc : k ≤ key c) : ∀ a ∈ ys ++ [c], k ≤ key a := by
  intro a ha
  obtain ha | ha := mem_append.mp ha
  · exact hy a ha
  · rw [mem_singleton.mp ha]
    exact hc

/-- Only the first node can be smaller. -/
theorem insertLoop_front (hr : DRing h (c :: zs)) (hs : Falling key (c :: zs)) (hn : n ∉ c :: zs) (halive : h.alive n = true)
    {it : Option ℕ} {fuel : ℕ} (hit : dlistNext h (some c) it = .ok (some c)) (hgt : key n > key c) :
    ∃ h' xs', insertLoop key h c n (fuel + 1) it = .ok (h', xs'.head?) ∧ SortedIn key h (c :: zs) n h' xs' := by
  obtain ⟨h', hins, hinserted⟩ := @dlistInsertBefore_ok h [] zs n c hr hn halive
  refine ⟨h', n :: c :: zs, ?_, hinserted.sortedIn hs (by simp) fun a ha => ?_⟩
  · rw [insertLoop, hit, ok_bind]
    simp only [hgt, if_true, hins, ok_bind, pure_eq_ok, List.head?_cons]
  · obtain rfl | ha := mem_cons.mp ha
    · exact hgt.le
    · exact ((pairwise_cons.mp hs).1 a ha).trans hgt.le

theorem insertLoop_from (hr : DRing h (ys ++ c :: zs)) (hs : Falling key (ys ++ c :: zs)) (hn : n ∉ ys ++ c :: zs)
    (halive : h.alive n = true) {it : Option ℕ} {fuel head : ℕ} (hhead : (ys ++ c :: zs).head? = some head)
    (hit : dlistNext h (some head) it = .ok (some c)) (hfuel : zs.length < fuel)
    (hy : ∀ a ∈ ys, key n ≤ key a) (hle : key n ≤ key c ∨ ys = []) :
    ∃ h' xs', insertLoop key h head n fuel it = .ok (h', xs'.head?) ∧ SortedIn key h (ys ++ c :: zs) n h' xs' := by
  induction zs generalizing ys c it fuel with
  | nil =>
    obtain ⟨fuel, rfl⟩ := exists_succ_of_lt hfuel
    have hnext := dlistNext_after hr
    rw [hhead] at hnext
    by_cases hgt : key n > key c
    · obtain rfl : ys = [] := hle.resolve_left (not_le.mpr hgt)
      obtain rfl : c = head := some.inj hhead
      exact insertLoop_front hr hs hn halive hit hgt
    · obtain ⟨h', hins, hinserted⟩ := dlistInsertAfter_ok hr hn halive
      have hs' : Falling key (ys ++ [c] ++ []) := by rwa [append_nil]
      have hinserted' : Inserted h h' (ys ++ [c] ++ []) (ys ++ [c]) [] n := by rwa [append_nil]
      have hsorted := hinserted'.sortedIn hs' (le_snoc hy (not_lt.mp hgt)) (by simp)
      refine ⟨h', _, ?_, by rwa [append_nil] at hsorted⟩
      have hhead' : (ys ++ [c] ++ [n]).head? = some head := by
        rw [← hhead]
        cases ys <;> rfl
      rw [insertLoop, hit, ok_bind]
      simp only [hgt, if_false, hnext, ok_bind, List.head?_nil, all_none, if_true, hins, pure_eq_ok, hhead']
  | cons z zs ih =>
    obtain ⟨fuel, rfl⟩ := exists_succ_of_lt hfuel
    have hnext := dlistNext_after hr
    rw [hhead] at hnext
    have hlater : ∀ a ∈ z :: zs, key a ≤ key z := by
      have hzs := pairwise_cons.mp (pairwise_cons.mp (pairwise_append.mp hs).2.1).2
      intro a ha
      obtain rfl | ha := mem_cons.mp ha
      · exact le_rfl
      · exact hzs.1 a ha
    have hassoc : ys ++ c :: z :: zs = (ys ++ [c]) ++ z :: zs := by simp
    by_cases hgt : key n > key c
    · obtain rfl : ys = [] := hle.resolve_left (not_le.mpr hgt)
      obtain rfl : c = head := some.inj hhead
      exact insertLoop_front hr hs hn halive hit hgt
    · have hbefore := le_snoc hy (not_lt.mp hgt)
      by_cases hge : key n ≥ key z
      · obtain ⟨h', hins, hinserted⟩ := dlistInsertAfter_ok hr hn halive
        have hhead' : (ys ++ [c] ++ n :: z :: zs).head? = some head := by
          rw [← hhead]
          cases ys <;> rfl
        rw [hassoc] at hs hinserted ⊢
        refine ⟨h', _, ?_, hinserted.sortedIn hs hbefore fun a ha => (hlater a ha).trans hge⟩
        rw [insertLoop, hit, ok_bind]
        simp only [hgt, if_false, hnext, ok_bind, List.head?_cons, all_some, hge, decide_true, if_true, hins,
          pure_eq_ok, hhead']
      · rw [hassoc] at hr hs hn hhead ⊢
        obtain ⟨h', xs', hloop, hsorted⟩ := ih hr hs hn hhead hnext
          (by simp only [length_cons] at hfuel; omega : zs.length < fuel) hbefore (.inl (not_le.mp hge).le)
        refine ⟨h', xs', ?_, hsorted⟩
        rw [insertLoop, hit, ok_bind]
        simp only [hgt, if_false, hnext, ok_bind, List.head?_cons, all_some, hge, decide_false, Bool.false_eq_true]
        exact hloop

theorem dlistInsertSorted_ok (hr : DRing h xs) (hs : Falling key xs) (hn : n ∉ xs) (halive : h.alive n = true) {fuel : ℕ}
    (hfuel : xs.length ≤ fuel) :
    ∃ h' xs', dlistInsertSorted key fuel h xs.head? n = .ok (h', xs'.head?) ∧ SortedIn key h xs n h' xs' := by
  cases xs with
  | nil =>
    obtain ⟨h', hins, hring, halive', hframe⟩ := dlistInsertTail_ok (hr.init hn) hn halive (dlistInit_null h n)
    refine ⟨h', [n], hins, hring, pairwise_singleton _ _, .refl _, halive', fun a ha han => ?_⟩
    have h1 := hframe a ha han
    have h2 := @dlistInit_other h n a han
    exact ⟨h1.1.trans h2.1, h1.2.trans h2.2⟩
  | cons c zs =>
    exact @insertLoop_from h [] zs n c α _ key hr hs hn halive none fuel c rfl rfl hfuel (by simp) (.inr rfl)

end Sorted

end CServer.Lib
