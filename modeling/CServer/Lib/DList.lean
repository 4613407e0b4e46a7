import CServer.Lib.Memory

/-! # Circular doubly linked lists threaded through their nodes

Nodes are addresses, with one function for each link and one that says which nodes are allocated;
every access to a node that is not is a fault. A list is a pointer to its first node or null.
-/
namespace CServer.Lib
open Function List Option

structure DHeap where
  alive : ℕ → Bool
  prev : ℕ → Option ℕ
  next : ℕ → Option ℕ

def DHeap.access (h : DHeap) (a : ℕ) : Except Fault Unit :=
  if h.alive a then .ok () else .error .outOfBounds

def DHeap.alloc (h : DHeap) (n : ℕ) : DHeap :=
  ⟨update h.alive n true, update h.prev n none, update h.next n none⟩

def DHeap.free (h : DHeap) (n : ℕ) : DHeap := { h with alive := update h.alive n false }

def dlistInsertTail (h : DHeap) (l : Option ℕ) (n : ℕ) : Except Fault (DHeap × Option ℕ) := do
  h.access n
  assert (decide (h.next n = none ∧ h.prev n = none))
  match l with
  | none =>
    .ok ({ h with next := update h.next n (some n), prev := update h.prev n (some n) }, some n)
  | some l => do
    h.access l
    match h.prev l with
    | none => .error .outOfBounds
    | some p => do
      h.access p
      .ok ({ h with
        next := update (update h.next n (some l)) p (some n)
        prev := update (update h.prev n (some p)) l (some n) }, some l)

def dlistRemove (h : DHeap) (l : Option ℕ) (n : ℕ) : Except Fault (DHeap × Option ℕ) := do
  h.access n
  if h.next n = some n then
    .ok ({ h with next := update h.next n none, prev := update h.prev n none }, none)
  else
    match h.next n, h.prev n with
    | some q, some p => do
      h.access q
      h.access p
      .ok ({ h with
        next := update (update h.next p (some q)) n none
        prev := update (update h.prev q (some p)) n none },
        if l = some n then some q else l)
    | _, _ =>
      .ok ({ h with next := update h.next n none, prev := update h.prev n none }, l)

def dlistInit (h : DHeap) (n : ℕ) : DHeap :=
  { h with next := update h.next n none, prev := update h.prev n none }

/-! ## Rings -/

def DHeap.Linked (h : DHeap) (a b : ℕ) : Prop := h.next a = some b ∧ h.prev b = some a

structure DRing (h : DHeap) (xs : List ℕ) : Prop where
  nodup : xs.Nodup
  alive : ∀ a ∈ xs, h.alive a = true
  links : xs.IsChain h.Linked
  wrap : ∀ a ∈ xs.getLast?, ∀ b ∈ xs.head?, h.Linked a b

variable {h h' : DHeap} {xs ys zs : List ℕ} {n : ℕ}

theorem DHeap.access_ok {a : ℕ} (ha : h.alive a = true) : h.access a = .ok () := by
  rw [DHeap.access, if_pos ha]

theorem DHeap.free_dead {a : ℕ} (ha : h.alive a = false) : (h.free n).alive a = false := by
  by_cases han : a = n
  · subst han
    exact update_self ..
  · exact (update_of_ne han _ _).trans ha

theorem DRing.mem_without {a : ℕ} (hr : DRing h (ys ++ n :: zs)) : a ∈ ys ++ zs ↔ a ≠ n ∧ a ∈ ys ++ n :: zs := by
  have hn : n ∉ ys ++ zs := (nodup_cons.mp (nodup_middle.mp hr.nodup)).1
  rw [mem_append, mem_append, mem_cons, or_left_comm, ← mem_append]
  constructor
  · intro ha
    exact ⟨fun he => hn (he ▸ ha), .inr ha⟩
  · intro ha
    exact ha.2.resolve_left ha.1

theorem dring_nil : DRing h [] := ⟨nodup_nil, by simp, .nil, by simp⟩

theorem DRing.congr (hr : DRing h xs)
    (hsame : ∀ a ∈ xs, h'.alive a = h.alive a ∧ h'.next a = h.next a ∧ h'.prev a = h.prev a) : DRing h' xs := by
  refine ⟨hr.nodup, fun a ha => ?_, hr.links.imp_of_mem_imp (fun a b ha hb hab => ?_), fun a ha b hb => ?_⟩
  · rw [(hsame a ha).1]
    exact hr.alive a ha
  · rw [DHeap.Linked, (hsame a ha).2.1, (hsame b hb).2.2]
    exact hab
  · rw [DHeap.Linked, (hsame a (List.mem_of_getLast? ha)).2.1, (hsame b (List.mem_of_head? hb)).2.2]
    exact hr.wrap a ha b hb

theorem DRing.rotate (hr : DRing h (ys ++ zs)) : DRing h (zs ++ ys) := by
  obtain ⟨h1, h2, h3⟩ := isChain_append.mp hr.links
  refine ⟨nodup_append_comm.mp hr.nodup, fun a ha => hr.alive a ?_, isChain_append.mpr ⟨h2, h1, ?_⟩, ?_⟩
  · exact mem_append.mpr (mem_append.mp ha).symm
  · intro a ha b hb
    refine hr.wrap a ?_ b ?_
    · rw [List.getLast?_append, mem_def.mp ha]
      rfl
    · rw [List.head?_append, mem_def.mp hb]
      rfl
  · intro a ha b hb
    cases ys with
    | nil =>
      rw [append_nil] at ha hb
      exact hr.wrap a ha b hb
    | cons y ys =>
      cases zs with
      | nil =>
        rw [nil_append] at ha hb
        refine hr.wrap a ?_ b ?_
        · rwa [append_nil]
        · rwa [append_nil]
      | cons z zs =>
        rw [List.getLast?_append_of_ne_nil _ (by simp)] at ha
        exact h3 a ha b hb

theorem DRing.next_of (hr : DRing h (n :: xs)) : h.next n = (xs ++ [n]).head? := by
  cases xs with
  | nil => exact (hr.wrap n rfl n rfl).1
  | cons x xs => exact (isChain_cons_cons.mp hr.links).1.1

theorem DRing.prev_of (hr : DRing h (n :: xs)) : h.prev n = (n :: xs).getLast? := by
  have hne : (n :: xs) ≠ [] := by simp
  rw [List.getLast?_eq_some_getLast hne]
  exact (hr.wrap _ (List.getLast?_eq_some_getLast hne) n rfl).2

/-! ## The operations on rings -/

theorem getLast?_mem_ne {a : ℕ} (hnodup : xs.Nodup) {i : ℕ} (hi : i + 1 < xs.length)
    (ha : xs.getLast? = some a) : xs[i] ≠ a := by
  rw [List.getLast?_eq_getElem?, List.getElem?_eq_some_iff] at ha
  obtain ⟨hlt, rfl⟩ := ha
  intro he
  have := (hnodup.getElem_inj_iff).mp he
  omega

theorem head?_succ_ne {a : ℕ} (hnodup : xs.Nodup) {i : ℕ} (hi : i + 1 < xs.length)
    (ha : xs.head? = some a) : xs[i + 1] ≠ a := by
  rw [List.head?_eq_getElem?, List.getElem?_eq_some_iff] at ha
  obtain ⟨hlt, rfl⟩ := ha
  intro he
  have := (hnodup.getElem_inj_iff).mp he
  omega

theorem DRing.close (hr : DRing h (n :: xs)) {p q : ℕ} (hp : xs.getLast? = some p) (hq : xs.head? = some q) :
    DRing { h with
      next := update (update h.next p (some q)) n none
      prev := update (update h.prev q (some p)) n none } xs := by
  obtain ⟨hn, hnodup⟩ := nodup_cons.mp hr.nodup
  have hne : ∀ a ∈ xs, a ≠ n := by
    rintro a ha rfl
    exact hn ha
  refine ⟨hnodup, fun a ha => hr.alive a (mem_cons_of_mem _ ha), ?_, ?_⟩
  · rw [isChain_iff_getElem]
    intro i hi
    have hold := (isChain_iff_getElem.mp (isChain_cons.mp hr.links).2) i hi
    have h1 := getLast?_mem_ne hnodup hi hp
    have h2 := head?_succ_ne hnodup hi hq
    have h3 := hne xs[i] (getElem_mem _)
    have h4 := hne xs[i + 1] (getElem_mem _)
    simp only [DHeap.Linked, update_of_ne h1, update_of_ne h2, update_of_ne h3,
      update_of_ne h4]
    exact hold
  · intro a ha b hb
    obtain rfl : p = a := some.inj (hp.symm.trans ha)
    obtain rfl : q = b := some.inj (hq.symm.trans hb)
    have h1 := hne p (List.mem_of_getLast? hp)
    have h2 := hne q (List.mem_of_head? hq)
    simp only [DHeap.Linked, update_of_ne h1, update_of_ne h2, update_self, and_self]

/-- What a removal does: the node leaves its ring with null links, the other nodes keep theirs, and the
list pointer is cleared if the node was alone and moved on if it pointed to the node. -/
theorem dlistRemove_ok (hr : DRing h (ys ++ n :: zs)) (l : Option ℕ) :
    ∃ h', dlistRemove h l n = .ok (h', if ys ++ zs = [] then none else if l = some n then (zs ++ ys).head? else l) ∧
      DRing h' (ys ++ zs) ∧ h'.alive = h.alive ∧ (h'.next n = none ∧ h'.prev n = none) ∧
      ∀ a, a ∉ ys ++ n :: zs → h'.next a = h.next a ∧ h'.prev a = h.prev a := by
  have hrot : DRing h (n :: (zs ++ ys)) := by
    have := hr.rotate
    rwa [cons_append] at this
  have hn : n ∉ zs ++ ys := (nodup_cons.mp hrot.nodup).1
  have halive := hrot.alive n (mem_cons_self ..)
  have hnext := hrot.next_of
  by_cases hnil : ys ++ zs = []
  · obtain ⟨rfl, rfl⟩ := append_eq_nil_iff.mp hnil
    have hself : h.next n = some n := hnext
    refine ⟨{ h with next := update h.next n none, prev := update h.prev n none }, ?_, dring_nil, rfl,
      ⟨update_self .., update_self ..⟩, fun a ha => ?_⟩
    · simp only [dlistRemove, DHeap.access_ok halive, ok_bind, hself, if_true, append_nil]
    · have hne : a ≠ n := by
        rintro rfl
        exact ha (by simp)
      simp only [update_of_ne hne, and_self]
  · have hne : zs ++ ys ≠ [] := by
      intro he
      obtain ⟨rfl, rfl⟩ := append_eq_nil_iff.mp he
      exact hnil rfl
    obtain ⟨q, hq⟩ : ∃ q, (zs ++ ys).head? = some q := ⟨_, List.head?_eq_some_head hne⟩
    obtain ⟨p, hp⟩ : ∃ p, (zs ++ ys).getLast? = some p := ⟨_, List.getLast?_eq_some_getLast hne⟩
    have hqn : q ≠ n := by
      rintro rfl
      exact hn (List.mem_of_head? hq)
    have hnextq : h.next n = some q := by rw [hnext, List.head?_append, hq]; rfl
    have hprevp : h.prev n = some p := by
      rw [hrot.prev_of, List.getLast?_cons, hp]
      rfl
    have hself : h.next n ≠ some n := by
      rw [hnextq]
      exact fun he => hqn (some.inj he)
    have hclose := (hrot.close hp hq).rotate
    refine ⟨_, ?_, hclose, rfl, ⟨update_self .., update_self ..⟩, fun a ha => ?_⟩
    · have hqa := hrot.alive q (mem_cons_of_mem _ (List.mem_of_head? hq))
      have hpa := hrot.alive p (mem_cons_of_mem _ (List.mem_of_getLast? hp))
      rw [hnextq] at hself
      simp only [dlistRemove, DHeap.access_ok halive, ok_bind, hnextq, hself, if_false, hprevp, DHeap.access_ok hqa,
        DHeap.access_ok hpa, hnil, hq]
    · have hmem : ∀ b ∈ zs ++ ys, a ≠ b := by
        rintro b hb rfl
        refine ha ?_
        rcases mem_append.mp hb with hb | hb
        · exact mem_append_right _ (mem_cons_of_mem _ hb)
        · exact mem_append_left _ hb
      have h1 := hmem q (List.mem_of_head? hq)
      have h2 := hmem p (List.mem_of_getLast? hp)
      have h3 : a ≠ n := by
        rintro rfl
        exact ha (by simp)
      simp only [update_of_ne h1, update_of_ne h2, update_of_ne h3, and_self]

theorem dlistRemove_own (hr : DRing h (ys ++ n :: zs)) :
    ∃ h', dlistRemove h (ys ++ n :: zs).head? n = .ok (h', (ys ++ zs).head?) ∧ DRing h' (ys ++ zs) ∧
      h'.alive = h.alive ∧ (h'.next n = none ∧ h'.prev n = none) ∧
      ∀ a, a ∉ ys ++ n :: zs → h'.next a = h.next a ∧ h'.prev a = h.prev a := by
  obtain ⟨h', hrem, hrest⟩ := dlistRemove_ok hr (ys ++ n :: zs).head?
  refine ⟨h', ?_, hrest⟩
  rw [hrem]
  cases ys with
  | nil =>
    cases zs with
    | nil => rfl
    | cons z zs => simp
  | cons y ys =>
    have hyn : y ≠ n := by
      rintro rfl
      exact (nodup_cons.mp hr.nodup).1 (by simp)
    have hnil : (y :: ys) ++ zs ≠ [] := by simp
    have hhead : ((y :: ys) ++ n :: zs).head? ≠ some n := fun he => hyn (some.inj he)
    rw [if_neg hnil, if_neg hhead]
    rfl

theorem dlistRemove_other (hr : DRing h (ys ++ n :: zs)) {l : Option ℕ} (hl : l ≠ some n) (hne : ys ++ zs ≠ []) :
    ∃ h', dlistRemove h l n = .ok (h', l) ∧ DRing h' (ys ++ zs) ∧
      h'.alive = h.alive ∧ (h'.next n = none ∧ h'.prev n = none) ∧
      ∀ a, a ∉ ys ++ n :: zs → h'.next a = h.next a ∧ h'.prev a = h.prev a := by
  obtain ⟨h', hrem, hrest⟩ := dlistRemove_ok hr l
  rw [if_neg hne, if_neg hl] at hrem
  exact ⟨h', hrem, hrest⟩

theorem dlistInsertTail_ok (hr : DRing h xs) (hn : n ∉ xs) (halive : h.alive n = true)
    (hnull : h.next n = none ∧ h.prev n = none) :
    ∃ h', dlistInsertTail h xs.head? n = .ok (h', (xs ++ [n]).head?) ∧ DRing h' (xs ++ [n]) ∧ h'.alive = h.alive ∧
      ∀ a, a ∉ xs → a ≠ n → h'.next a = h.next a ∧ h'.prev a = h.prev a := by
  cases xs with
  | nil =>
    refine ⟨{ h with next := update h.next n (some n), prev := update h.prev n (some n) }, ?_,
      ⟨by simp, by simpa using halive, .singleton n, ?_⟩, rfl, fun a _ han => ?_⟩
    · simp only [dlistInsertTail, DHeap.access_ok halive, ok_bind, hnull, and_self, decide_true, assert_true,
        List.head?_nil, nil_append, List.head?_cons]
    · intro a ha b hb
      obtain rfl : n = a := some.inj ha
      obtain rfl : n = b := some.inj hb
      exact ⟨update_self .., update_self ..⟩
    · simp only [update_of_ne han, and_self]
  | cons x xs =>
    obtain ⟨p, hp⟩ : ∃ p, (x :: xs).getLast? = some p := ⟨_, List.getLast?_eq_some_getLast (by simp)⟩
    have hprev : h.prev x = some p := hr.prev_of.trans hp
    have hxa := hr.alive x (mem_cons_self ..)
    have hpa := hr.alive p (List.mem_of_getLast? hp)
    have hne : ∀ a ∈ x :: xs, a ≠ n := by
      rintro a ha rfl
      exact hn ha
    have hxn := hne x (mem_cons_self ..)
    have hpn := hne p (List.mem_of_getLast? hp)
    refine ⟨{ h with
      next := update (update h.next n (some x)) p (some n)
      prev := update (update h.prev n (some p)) x (some n) }, ?_,
      ⟨?_, fun a ha => ?_, isChain_append.mpr ⟨?_, .singleton n, ?_⟩, ?_⟩, rfl, fun a ha han => ?_⟩
    · simp only [dlistInsertTail, DHeap.access_ok halive, ok_bind, hnull, and_self, decide_true, assert_true,
        List.head?_cons, DHeap.access_ok hxa, hprev, DHeap.access_ok hpa, cons_append]
    · exact nodup_append.mpr ⟨hr.nodup, by simp, fun a ha b hb => by
        rw [mem_singleton.mp hb]; exact hne a ha⟩
    · rcases mem_append.mp ha with ha | ha
      · exact hr.alive a ha
      · rw [mem_singleton.mp ha]
        exact halive
    · rw [isChain_iff_getElem]
      intro i hi
      have hold := isChain_iff_getElem.mp hr.links i hi
      have h1 := getLast?_mem_ne hr.nodup hi hp
      have h2 : (x :: xs)[i + 1] ≠ x := head?_succ_ne hr.nodup hi rfl
      have h3 := hne (x :: xs)[i] (getElem_mem _)
      have h4 := hne (x :: xs)[i + 1] (getElem_mem _)
      simp only [DHeap.Linked, update_of_ne h1, update_of_ne h2, update_of_ne h3,
        update_of_ne h4]
      exact hold
    · intro a ha b hb
      obtain rfl : p = a := some.inj (hp.symm.trans ha)
      obtain rfl : n = b := some.inj hb
      simp only [DHeap.Linked, update_self, update_of_ne (Ne.symm hxn), and_self]
    · intro a ha b hb
      rw [List.getLast?_append_of_ne_nil _ (by simp)] at ha
      obtain rfl : n = a := some.inj ha
      obtain rfl : x = b := some.inj hb
      simp only [DHeap.Linked, update_self, update_of_ne (Ne.symm hpn), and_self]
    · have h1 : a ≠ p := by
        rintro rfl
        exact ha (List.mem_of_getLast? hp)
      have h2 : a ≠ x := by
        rintro rfl
        exact ha (mem_cons_self ..)
      simp only [update_of_ne h1, update_of_ne h2, update_of_ne han, and_self]

theorem dlist_requeue (hr : DRing h (n :: xs)) (hr' : DRing h ys) (hdisj : ∀ a ∈ n :: xs, a ∉ ys) :
    ∃ h₁ h₂, dlistRemove h (some n) n = .ok (h₁, xs.head?) ∧
      dlistInsertTail h₁ ys.head? n = .ok (h₂, (ys ++ [n]).head?) ∧ h₁.alive = h.alive ∧
      DRing h₂ xs ∧ DRing h₂ (ys ++ [n]) ∧ h₂.alive = h.alive ∧
      ∀ a, a ∉ n :: xs → a ∉ ys → h₂.next a = h.next a ∧ h₂.prev a = h.prev a := by
  have hn : n ∉ xs := (nodup_cons.mp hr.nodup).1
  have hny : n ∉ ys := hdisj n mem_cons_self
  obtain ⟨h₁, hrem, hring, halive, hnull, hframe⟩ := @dlistRemove_own h [] xs n hr
  have hr₁ : DRing h₁ ys := by
    apply hr'.congr
    intro a ha
    have hout : a ∉ n :: xs := fun hmem => hdisj a hmem ha
    exact ⟨congrFun halive a, hframe a hout⟩
  have hnalive : h₁.alive n = true := by
    rw [halive]
    exact hr.alive n mem_cons_self
  obtain ⟨h₂, hins, hring₂, halive₂, hframe₂⟩ := dlistInsertTail_ok hr₁ hny hnalive hnull
  refine ⟨h₁, h₂, hrem, hins, halive, ?_, hring₂, halive₂.trans halive, ?_⟩
  · apply hring.congr
    intro a ha
    have hout : a ∉ ys := hdisj a (mem_cons_of_mem n ha)
    have han : a ≠ n := fun he => hn (he ▸ ha)
    exact ⟨congrFun halive₂ a, hframe₂ a hout han⟩
  · intro a ha hay
    have han : a ≠ n := fun he => ha (he ▸ mem_cons_self)
    have h1 := hframe a ha
    have h2 := hframe₂ a hay han
    exact ⟨h2.1.trans h1.1, h2.2.trans h1.2⟩

/-! ## A list whose nodes are the only linked ones -/

/-- `l` points to the list `xs`, and the nodes that are not in it have null links. -/
structure DListed (h : DHeap) (l : Option ℕ) (xs : List ℕ) : Prop where
  ring : DRing h xs
  head : l = xs.head?
  unlinked : ∀ a, a ∉ xs → h.next a = none ∧ h.prev a = none

theorem DListed.nodup {l : Option ℕ} (hl : DListed h l xs) : xs.Nodup := hl.ring.nodup

theorem DListed.of_alive {l : Option ℕ} {alive : ℕ → Bool} (hl : DListed h l xs) (halive : h.alive = alive) :
    DListed ⟨alive, h.prev, h.next⟩ l xs := by
  rw [← halive]
  exact hl

theorem DListed.linked {l : Option ℕ} (hl : DListed h l xs) (hn : n ∈ xs) : h.next n ≠ none := by
  obtain ⟨ys, zs, rfl⟩ := append_of_mem hn
  have hrot : DRing h (n :: (zs ++ ys)) := by
    have := hl.ring.rotate
    rwa [cons_append] at this
  rw [hrot.next_of]
  simp

theorem mem_erase_append {a : ℕ} : a ∈ xs.erase n ++ [n] ↔ a ∈ xs ∨ a = n := by
  rw [mem_append, mem_singleton]
  by_cases han : a = n
  · simp only [han, or_true]
  · rw [mem_erase_of_ne han]

theorem dlistInit_of_null (hnull : h.next n = none ∧ h.prev n = none) : dlistInit h n = h := by
  rw [dlistInit, ← hnull.1, update_eq_self, hnull.1, ← hnull.2, update_eq_self]

theorem DListed.remove {l : Option ℕ} (hl : DListed h l xs) (halive : h.alive n = true) :
    ∃ h' l', dlistRemove h l n = .ok (h', l') ∧ DListed h' l' (xs.erase n) ∧ h'.alive = h.alive := by
  by_cases hn : n ∈ xs
  · obtain ⟨ys, zs, rfl⟩ := append_of_mem hn
    have hys : n ∉ ys := fun hy => (nodup_append.mp hl.nodup).2.2 n hy n (mem_cons_self ..) rfl
    have herase : (ys ++ n :: zs).erase n = ys ++ zs := by
      rw [erase_append_right _ hys, erase_cons_head]
    obtain ⟨h', hrem, hring, halive', hnull, hframe⟩ := dlistRemove_own hl.ring
    rw [← hl.head] at hrem
    refine ⟨h', _, hrem, ⟨by rwa [herase], by rw [herase], fun a ha => ?_⟩, halive'⟩
    rw [herase] at ha
    by_cases han : a = n
    · subst han
      exact hnull
    · have hout : a ∉ ys ++ n :: zs := by
        simp only [mem_append, mem_cons, not_or] at ha ⊢
        exact ⟨ha.1, han, ha.2⟩
      rw [(hframe a hout).1, (hframe a hout).2]
      exact hl.unlinked a hout
  · have hnull := hl.unlinked n hn
    rw [erase_of_not_mem hn]
    refine ⟨h, l, ?_, hl, rfl⟩
    simp only [dlistRemove, DHeap.access_ok halive, ok_bind, hnull.1, reduceCtorEq, if_false]
    exact congrArg (fun h' => Except.ok (h', l)) (dlistInit_of_null hnull)

theorem DListed.alloc {l : Option ℕ} (hl : DListed h l xs) (hn : n ∉ xs) : DListed (h.alloc n) l xs := by
  have hne : ∀ a ∈ xs, a ≠ n := by
    rintro a ha rfl
    exact hn ha
  refine ⟨hl.ring.congr fun a ha => ?_, hl.head, fun a ha => ?_⟩
  · simp only [DHeap.alloc, update_of_ne (hne a ha), and_self]
  · by_cases han : a = n
    · subst han
      exact ⟨update_self .., update_self ..⟩
    · simp only [DHeap.alloc, update_of_ne han]
      exact hl.unlinked a ha

theorem DListed.free {l : Option ℕ} (hl : DListed h l xs) (hn : n ∉ xs) : DListed (h.free n) l xs := by
  refine ⟨hl.ring.congr fun a ha => ⟨?_, rfl, rfl⟩, hl.head, hl.unlinked⟩
  have hne : a ≠ n := by
    rintro rfl
    exact hn ha
  exact update_of_ne hne _ _

theorem DListed.insertTail {l : Option ℕ} (hl : DListed h l xs) (halive : h.alive n = true) (hn : n ∉ xs) :
    ∃ h' l', dlistInsertTail h l n = .ok (h', l') ∧ DListed h' l' (xs ++ [n]) ∧ h'.alive = h.alive := by
  obtain ⟨h', hins, hring, halive', hframe⟩ := dlistInsertTail_ok hl.ring hn halive (hl.unlinked n hn)
  rw [← hl.head] at hins
  refine ⟨h', _, hins, ⟨hring, rfl, fun a ha => ?_⟩, halive'⟩
  have hout : a ∉ xs ∧ a ≠ n := by
    simpa only [mem_append, mem_singleton, not_or] using ha
  rw [(hframe a hout.1 hout.2).1, (hframe a hout.1 hout.2).2]
  exact hl.unlinked a hout.1

end CServer.Lib
