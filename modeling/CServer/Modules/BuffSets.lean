import CServer.Modules.Buff

/-! # `world/modules/buff.c`: what each function keeps

A sound set holds its buffs in the map, each under its own id; those in the list are in the order of their ends, and those
that are not had expired when they should have been put there. The sets of different players have no nodes in common.
-/
namespace CServer.Modules
open CServer.Lib Function Option
open List hiding set

/-! ## One set -/

structure SetSound (s : BuffState) (now : ℤ) (pid : ℕ) (set : BuffSet) (xs : List ℕ) : Prop where
  ring : DRing s.heap xs
  head : set.list = xs.head?
  falling : Falling (fun a => (s.buff a).endTime) xs
  listed : ∀ a ∈ xs, set.m (s.buff a).buffId = some a
  alive : ∀ id a, set.m id = some a → s.heap.alive a = true
  node : ∀ id a, set.m id = some a → (s.buff a).pid = pid ∧ (s.buff a).buffId = id
  unlisted : ∀ id a, set.m id = some a → a ∉ xs →
    s.heap.prev a = none ∧ s.heap.next a ≠ some a ∧ (s.buff a).endTime < now

/-- Nodes that are not allocated yet are at and above `top`. -/
def Fresh (s : BuffState) : Prop := ∀ a, s.heap.alive a = true → a < s.top

def Framed (s s' : BuffState) (pid : ℕ) : Prop := ∀ a, s.heap.alive a = true → (s.buff a).pid ≠ pid →
  s'.buff a = s.buff a ∧ s'.heap.alive a = true ∧ s'.heap.next a = s.heap.next a ∧ s'.heap.prev a = s.heap.prev a

section Sets
variable {s s' s'' : BuffState} {now now' : ℤ} {pid q : ℕ} {set : BuffSet} {xs : List ℕ}

theorem Framed.refl (s : BuffState) (pid : ℕ) : Framed s s pid := fun _ ha _ => ⟨rfl, ha, rfl, rfl⟩

theorem Framed.trans (h : Framed s s' pid) (h' : Framed s' s'' pid) : Framed s s'' pid := by
  intro a ha hpid
  obtain ⟨hb, halive, hnext, hprev⟩ := h a ha hpid
  obtain ⟨hb', halive', hnext', hprev'⟩ := h' a halive (by rwa [hb])
  exact ⟨hb'.trans hb, halive', hnext'.trans hnext, hprev'.trans hprev⟩

theorem SetSound.mono (h : SetSound s now pid set xs) (hnow : now ≤ now') : SetSound s now' pid set xs := by
  refine { h with unlisted := fun id a hm ha => ?_ }
  obtain ⟨hprev, hnext, hend⟩ := h.unlisted id a hm ha
  exact ⟨hprev, hnext, by omega⟩

theorem SetSound.congr (h : SetSound s now pid set xs)
    (hsame : ∀ id a, set.m id = some a → s'.heap.alive a = true ∧ s'.heap.next a = s.heap.next a ∧
      s'.heap.prev a = s.heap.prev a ∧ (s'.buff a).pid = (s.buff a).pid ∧ (s'.buff a).buffId = (s.buff a).buffId ∧
      (s'.buff a).endTime = (s.buff a).endTime) : SetSound s' now pid set xs := by
  have hlisted : ∀ a ∈ xs, set.m (s.buff a).buffId = some a := h.listed
  refine ⟨h.ring.congr fun a ha => ?_, h.head, ?_, fun a ha => ?_, fun id a hm => (hsame id a hm).1, fun id a hm => ?_,
    fun id a hm ha => ?_⟩
  · have hs := hsame _ a (hlisted a ha)
    exact ⟨hs.1.trans (h.ring.alive a ha).symm, hs.2.1, hs.2.2.1⟩
  · refine Pairwise.imp_of_mem (fun {a b} ha hb hab => ?_) h.falling
    show (s'.buff b).endTime ≤ (s'.buff a).endTime
    rw [(hsame _ a (hlisted a ha)).2.2.2.2.2, (hsame _ b (hlisted b hb)).2.2.2.2.2]
    exact hab
  · rw [(hsame _ a (hlisted a ha)).2.2.2.2.1]
    exact hlisted a ha
  · obtain ⟨-, -, -, hpid, hid, -⟩ := hsame id a hm
    rw [hpid, hid]
    exact h.node id a hm
  · obtain ⟨-, hnext, hprev, -, -, hend⟩ := hsame id a hm
    rw [hnext, hprev, hend]
    exact h.unlisted id a hm ha

theorem SetSound.framed (h : SetSound s now q set xs) (hf : Framed s s' pid) (hq : q ≠ pid) : SetSound s' now q set xs := by
  refine h.congr fun id a hm => ?_
  obtain ⟨hb, halive, hnext, hprev⟩ := hf a (h.alive id a hm) (by rw [(h.node id a hm).1]; exact hq)
  exact ⟨halive, hnext, hprev, by rw [hb], by rw [hb], by rw [hb]⟩

theorem SetSound.map_framed (h : SetSound s now q set xs) (hf : Framed s s' pid) (hq : q ≠ pid) (id : ℕ) :
    (set.m id).map s'.buff = (set.m id).map s.buff := by
  cases hm : set.m id with
  | none => rfl
  | some a =>
    rw [map_some, map_some, (hf a (h.alive id a hm) (by rw [(h.node id a hm).1]; exact hq)).1]

theorem SetSound.length_le (h : SetSound s now pid set xs) (hfresh : Fresh s) : xs.length ≤ s.top := by
  have hsub : xs ⊆ List.range s.top := fun a ha => mem_range.mpr (hfresh a (h.ring.alive a ha))
  have hle := (h.ring.nodup.subperm hsub).length_le
  rwa [length_range] at hle

end Sets

/-! ## Nodes in and out -/

section Nodes
variable {s : BuffState} {now : ℤ} {pid id n : ℕ} {set : BuffSet} {xs : List ℕ}

structure Loose (s : BuffState) (pid id n : ℕ) : Prop where
  alive : s.heap.alive n = true
  pid : (s.buff n).pid = pid
  buffId : (s.buff n).buffId = id
  prev : s.heap.prev n = none
  next : s.heap.next n ≠ some n

theorem SetSound.insert (h : SetSound s now pid set xs) (hfresh : Fresh s) (hm : set.m id = none)
    (hn : Loose s pid id n) : ∃ s' list xs', s.insertIntoSortDlist now set.list n = .ok (s', list) ∧
      SetSound s' now pid ⟨update set.m id (some n), list⟩ xs' ∧ Framed s s' pid ∧ Fresh s' ∧
      s'.buff = s.buff ∧ s'.set = s.set ∧ s'.top = s.top := by
  have hnx : n ∉ xs := by
    intro hmem
    have := h.listed n hmem
    rw [hn.buffId, hm] at this
    exact absurd this (by simp)
  -- no other id leads to the node
  have hother : ∀ id' a, id' ≠ id → set.m id' = some a → a ≠ n := by
    rintro id' a hne hm' rfl
    exact hne ((h.node id' a hm').2.symm.trans hn.buffId)
  have hnode : ∀ id' a, update set.m id (some n) id' = some a →
      (id' = id ∧ a = n) ∨ (id' ≠ id ∧ set.m id' = some a ∧ a ≠ n) := by
    intro id' a hm'
    by_cases hid : id' = id
    · subst hid
      rw [update_self] at hm'
      exact .inl ⟨rfl, (some.inj hm').symm⟩
    · rw [update_of_ne hid] at hm'
      exact .inr ⟨hid, hm', hother id' a hid hm'⟩
  have hids : ∀ a ∈ xs, (s.buff a).buffId ≠ id := by
    intro a ha hid
    have := h.listed a ha
    rw [hid, hm] at this
    exact absurd this (by simp)
  by_cases hexp : now > (s.buff n).endTime
  · -- an expired buff goes into the map only
    refine ⟨s, set.list, xs, if_pos hexp, ⟨h.ring, h.head, h.falling, fun a ha => ?_, fun id' a hm' => ?_,
      fun id' a hm' => ?_, fun id' a hm' ha => ?_⟩, Framed.refl s pid, hfresh, rfl, rfl, rfl⟩
    · exact (update_of_ne (hids a ha) _ _).trans (h.listed a ha)
    · obtain ⟨-, rfl⟩ | ⟨-, hm', -⟩ := hnode id' a hm'
      · exact hn.alive
      · exact h.alive id' a hm'
    · obtain ⟨rfl, rfl⟩ | ⟨-, hm', -⟩ := hnode id' a hm'
      · exact ⟨hn.pid, hn.buffId⟩
      · exact h.node id' a hm'
    · obtain ⟨-, rfl⟩ | ⟨-, hm', -⟩ := hnode id' a hm'
      · exact ⟨hn.prev, hn.next, hexp⟩
      · exact h.unlisted id' a hm' ha
  · obtain ⟨heap, xs', hins, hsorted⟩ := dlistInsertSorted_ok h.ring h.falling hnx
      hn.alive (h.length_le hfresh)
    have hmem : ∀ a, a ∈ xs' ↔ a = n ∨ a ∈ xs := fun a => by rw [hsorted.perm.mem_iff, mem_cons]
    refine ⟨{ s with heap := heap }, xs'.head?, xs', ?_, ⟨hsorted.ring, rfl, hsorted.falling, fun a ha => ?_,
      fun id' a hm' => ?_, fun id' a hm' => ?_, fun id' a hm' ha => ?_⟩, fun a ha hpid => ?_, fun a ha => ?_, rfl, rfl, rfl⟩
    · rw [BuffState.insertIntoSortDlist, if_neg hexp, h.head, hins]
      rfl
    · obtain rfl | ha := (hmem a).mp ha
      · exact (congrArg _ hn.buffId).trans (update_self ..)
      · exact (update_of_ne (hids a ha) _ _).trans (h.listed a ha)
    · show heap.alive a = true
      rw [hsorted.alive]
      obtain ⟨-, rfl⟩ | ⟨-, hm', -⟩ := hnode id' a hm'
      · exact hn.alive
      · exact h.alive id' a hm'
    · obtain ⟨rfl, rfl⟩ | ⟨-, hm', -⟩ := hnode id' a hm'
      · exact ⟨hn.pid, hn.buffId⟩
      · exact h.node id' a hm'
    · rw [hmem, not_or] at ha
      obtain ⟨-, rfl⟩ | ⟨-, hm', -⟩ := hnode id' a hm'
      · exact absurd rfl ha.1
      · obtain ⟨hnext, hprev⟩ := hsorted.frame a ha.2 ha.1
        obtain ⟨hprev₀, hnext₀, hend⟩ := h.unlisted id' a hm' ha.2
        exact ⟨hprev.trans hprev₀, fun he => hnext₀ (hnext.symm.trans he), hend⟩
    · have hax : a ∉ xs := fun hmem => hpid (h.node _ a (h.listed a hmem)).1
      have han : a ≠ n := by
        rintro rfl
        exact hpid hn.pid
      obtain ⟨hnext, hprev⟩ := hsorted.frame a hax han
      exact ⟨rfl, (congrFun hsorted.alive a).trans ha, hnext, hprev⟩
    · exact hfresh a ((congrFun hsorted.alive a).symm.trans ha)

theorem dlistRemove_loose {h : DHeap} (l : Option ℕ) (halive : h.alive n = true) (hprev : h.prev n = none)
    (hnext : h.next n ≠ some n) : dlistRemove h l n = .ok (dlistInit h n, l) := by
  simp only [dlistRemove, DHeap.access_ok halive, ok_bind, if_neg hnext, hprev, dlistInit]
  cases h.next n <;> rfl

theorem SetSound.remove (h : SetSound s now pid set xs) (hm : set.m id = some n) {b : Buff}
    (hb : b.pid = pid ∧ b.buffId = id) :
    ∃ heap list xs', dlistRemove s.heap set.list n = .ok (heap, list) ∧
      SetSound { s with heap := heap, buff := update s.buff n b } now pid ⟨update set.m id none, list⟩ xs' ∧
      Loose { s with heap := heap, buff := update s.buff n b } pid id n ∧
      Framed s { s with heap := heap, buff := update s.buff n b } pid ∧ heap.alive = s.heap.alive := by
  have halive := h.alive id n hm
  -- the other nodes of the set
  have hnode : ∀ id' a, update set.m id none id' = some a → set.m id' = some a ∧ a ≠ n := by
    intro id' a hm'
    have hid : id' ≠ id := by
      rintro rfl
      simp at hm'
    rw [update_of_ne hid] at hm'
    refine ⟨hm', ?_⟩
    rintro rfl
    exact hid ((h.node id' a hm').2.symm.trans (h.node id a hm).2)
  -- whatever the list is without the node, if the others are linked as they were
  have hrest : ∀ heap list xs', DRing heap xs' → list = xs'.head? → (xs'.Sublist xs) → (∀ a, a ∈ xs' ↔ a ≠ n ∧ a ∈ xs) →
      heap.alive = s.heap.alive → heap.prev n = none → heap.next n ≠ some n →
      (∀ a, a ∉ xs → a ≠ n → heap.next a = s.heap.next a ∧ heap.prev a = s.heap.prev a) →
      SetSound { s with heap := heap, buff := update s.buff n b } now pid ⟨update set.m id none, list⟩ xs' ∧
      Loose { s with heap := heap, buff := update s.buff n b } pid id n ∧
      Framed s { s with heap := heap, buff := update s.buff n b } pid := by
    intro heap list xs' hring hhead hsub hmem hal hprev hnext hframe
    have hbuff : ∀ a, a ≠ n → update s.buff n b a = s.buff a := fun a ha => update_of_ne ha _ _
    refine ⟨⟨hring, hhead, ?_, fun a ha => ?_, fun id' a hm' => ?_, fun id' a hm' => ?_, fun id' a hm' ha => ?_⟩,
      ⟨?_, ?_, ?_, hprev, hnext⟩, fun a ha hpid => ?_⟩
    · refine Pairwise.imp_of_mem (fun {a c} ha hc hac => ?_) (h.falling.sublist hsub)
      show (update s.buff n b c).endTime ≤ (update s.buff n b a).endTime
      rw [hbuff a ((hmem a).mp ha).1, hbuff c ((hmem c).mp hc).1]
      exact hac
    · obtain ⟨han, hax⟩ := (hmem a).mp ha
      have hlisted := h.listed a hax
      have hid : (s.buff a).buffId ≠ id := by
        intro hid
        rw [hid, hm] at hlisted
        exact han (some.inj hlisted).symm
      simp only [hbuff a han]
      rw [update_of_ne hid]
      exact hlisted
    · exact (congrFun hal a).trans (h.alive id' a (hnode id' a hm').1)
    · simp only [hbuff a (hnode id' a hm').2]
      exact h.node id' a (hnode id' a hm').1
    · obtain ⟨hm', han⟩ := hnode id' a hm'
      have hax : a ∉ xs := fun hx => ha ((hmem a).mpr ⟨han, hx⟩)
      obtain ⟨hprev₀, hnext₀, hend⟩ := h.unlisted id' a hm' hax
      obtain ⟨hn', hp'⟩ := hframe a hax han
      simp only [hbuff a han, hn', hp']
      exact ⟨hprev₀, hnext₀, hend⟩
    · exact (congrFun hal n).trans halive
    · simp only [update_self]
      exact hb.1
    · simp only [update_self]
      exact hb.2
    · have han : a ≠ n := by
        rintro rfl
        exact hpid (h.node id a hm).1
      have hax : a ∉ xs := fun hx => hpid (h.node _ a (h.listed a hx)).1
      obtain ⟨hn', hp'⟩ := hframe a hax han
      exact ⟨hbuff a han, (congrFun hal a).trans ha, hn', hp'⟩
  by_cases hnx : n ∈ xs
  · obtain ⟨ys, zs, rfl⟩ := append_of_mem hnx
    obtain ⟨heap, hrem, hring, hal, hnull, hframe⟩ := dlistRemove_own h.ring
    rw [← h.head] at hrem
    refine ⟨heap, _, ys ++ zs, hrem, ?_⟩
    have hsub : (ys ++ zs).Sublist (ys ++ n :: zs) := (sublist_cons_self n zs).append_left ys
    obtain ⟨h1, h2, h3⟩ := hrest heap _ (ys ++ zs) hring rfl hsub (fun a => h.ring.mem_without) hal hnull.2 (by rw [hnull.1]; simp)
      fun a ha _ => hframe a ha
    exact ⟨h1, h2, h3, hal⟩
  · obtain ⟨hprev, hnext, -⟩ := h.unlisted id n hm hnx
    refine ⟨dlistInit s.heap n, set.list, xs, dlistRemove_loose set.list halive hprev hnext, ?_⟩
    obtain ⟨h1, h2, h3⟩ := hrest (dlistInit s.heap n) set.list xs (h.ring.init hnx) h.head (Sublist.refl xs)
      (fun a => ⟨fun ha => ⟨fun he => hnx (he ▸ ha), ha⟩, And.right⟩) rfl (dlistInit_null s.heap n).2
      (by rw [(dlistInit_null s.heap n).1]; simp) fun a _ han => dlistInit_other han
    exact ⟨h1, h2, h3, rfl⟩

theorem SetSound.alloc (h : SetSound s now pid set xs) (hfresh : Fresh s) (b : Buff) (next : Option ℕ) :
    SetSound (s.alloc b next) now pid set xs := by
  refine h.congr fun id a hm => ?_
  have ha : a ≠ s.top := by
    rintro rfl
    exact absurd (hfresh _ (h.alive id _ hm)) (lt_irrefl _)
  simp only [BuffState.alloc, update_of_ne ha, and_self, and_true]
  exact h.alive id a hm

theorem alloc_framed (hfresh : Fresh s) (b : Buff) (next : Option ℕ) : Framed s (s.alloc b next) pid := by
  intro a ha _
  have hne : a ≠ s.top := by
    rintro rfl
    exact absurd (hfresh _ ha) (lt_irrefl _)
  simp only [BuffState.alloc, update_of_ne hne, and_self, and_true, true_and]
  exact ha

theorem alloc_fresh (hfresh : Fresh s) (b : Buff) (next : Option ℕ) : Fresh (s.alloc b next) := by
  intro a ha
  show a < s.top + 1
  by_cases hat : a = s.top
  · omega
  · simp only [BuffState.alloc, update_of_ne hat] at ha
    have := hfresh a ha
    omega

theorem alloc_loose (b : Buff) {next : Option ℕ} (hnext : next ≠ some s.top) :
    Loose (s.alloc b next) b.pid b.buffId s.top := by
  refine ⟨?_, ?_, ?_, ?_, ?_⟩ <;> simp [BuffState.alloc, hnext]

theorem map_update {m : ℕ → Option ℕ} (f g : ℕ → Buff) {b : Buff} (hn : g n = b) (hg : ∀ i a, i ≠ id → m i = some a → g a = f a)
    (i : ℕ) : (update m id (some n) i).map g = update (fun i => (m i).map f) id (some b) i := by
  by_cases hi : i = id
  · subst hi
    rw [update_self, update_self, map_some, hn]
  · rw [update_of_ne hi, update_of_ne hi]
    cases hm : m i with
    | none => rfl
    | some a => rw [map_some, map_some, hg i a hi hm]

theorem SetSound.addNode (h : SetSound s now pid set xs) (hfresh : Fresh s) {b : Buff} (hpid : b.pid = pid)
    (hm : set.m b.buffId = none) {next : Option ℕ} (hnext : next ≠ some s.top) :
    ∃ s' list xs', (s.alloc b next).insertIntoSortDlist now set.list s.top = .ok (s', list) ∧
      SetSound s' now pid ⟨update set.m b.buffId (some s.top), list⟩ xs' ∧ Framed s s' pid ∧ Fresh s' ∧
      s'.set = s.set ∧ s'.top = s.top + 1 ∧
      ∀ i, (update set.m b.buffId (some s.top) i).map s'.buff =
        update (fun i => (set.m i).map s.buff) b.buffId (some b) i := by
  have hloose : Loose (s.alloc b next) pid b.buffId s.top := hpid ▸ alloc_loose b hnext
  obtain ⟨s', list, xs', hins, hsound, hframed, hfresh', hbuff, hset, htop⟩ :=
    (h.alloc hfresh b next).insert (alloc_fresh hfresh b next) hm hloose
  refine ⟨s', list, xs', hins, hsound, (alloc_framed hfresh b next).trans hframed, hfresh', hset, htop,
    map_update s.buff s'.buff ?_ ?_⟩
  · rw [hbuff]
    exact update_self ..
  · intro i a _ hmi
    rw [hbuff]
    refine update_of_ne ?_ _ _
    rintro rfl
    exact absurd (hfresh _ (h.alive i _ hmi)) (lt_irrefl _)

end Nodes

/-! ## All sets, next to a ledger -/

abbrev Ledger := ℕ → ℕ → Option Buff

def Ledger.write (L : Ledger) (pid id : ℕ) (b : Option Buff) : Ledger :=
  update L pid (update (L pid) id b)

def BuffRows.ledger (db : BuffRows) : Ledger := fun pid id => (db.rows pid).find? fun b => b.buffId = id

structure BuffSound (db : BuffRows) (s : BuffState) (now : ℤ) (L : Ledger) : Prop where
  fresh : Fresh s
  loaded : ∀ pid set, s.set pid = some set → (∃ xs, SetSound s now pid set xs) ∧ ∀ id, (set.m id).map s.buff = L pid id
  unloaded : ∀ pid, s.set pid = none → L pid = db.ledger pid

section Ledgers
variable {db : BuffRows} {s s' : BuffState} {now now' : ℤ} {L L' : Ledger} {pid id a : ℕ} {set set' : BuffSet} {xs : List ℕ}

theorem BuffSound.init : BuffSound db .init now db.ledger := by
  refine ⟨fun a ha => ?_, fun pid set hset => ?_, fun pid _ => rfl⟩
  · simp [BuffState.init] at ha
  · simp [BuffState.init] at hset

theorem BuffSound.mono (h : BuffSound db s now L) (hnow : now ≤ now') : BuffSound db s now' L := by
  refine { h with loaded := fun pid set hset => ?_ }
  obtain ⟨⟨xs, hsound⟩, hmap⟩ := h.loaded pid set hset
  exact ⟨⟨xs, hsound.mono hnow⟩, hmap⟩

theorem BuffSound.stored (h : BuffSound db s now L) (hf : Framed s s' pid) (hfresh : Fresh s')
    {xs' : List ℕ} (hsound : SetSound s' now pid set' xs') (hmap : ∀ id, (set'.m id).map s'.buff = L' pid id)
    (hother : ∀ q, q ≠ pid → L' q = L q) :
    BuffSound db { s' with set := update s.set pid (some set') } now L' := by
  refine ⟨hfresh, fun q setq hq => ?_, fun q hq => ?_⟩
  · by_cases hqp : q = pid
    · subst hqp
      simp only [update_self] at hq
      obtain rfl := some.inj hq
      exact ⟨⟨xs', hsound.ring, hsound.head, hsound.falling, hsound.listed, hsound.alive, hsound.node, hsound.unlisted⟩, hmap⟩
    · simp only [update_of_ne hqp] at hq
      obtain ⟨⟨ys, hys⟩, hmapq⟩ := h.loaded q setq hq
      have hkept := hys.framed hf hqp
      refine ⟨⟨ys, hkept.ring, hkept.head, hkept.falling, hkept.listed, hkept.alive, hkept.node, hkept.unlisted⟩, fun id => ?_⟩
      rw [hother q hqp, ← hmapq id]
      exact hys.map_framed hf hqp id
  · have hqp : q ≠ pid := by
      rintro rfl
      simp at hq
    simp only [update_of_ne hqp] at hq
    rw [hother q hqp]
    exact h.unloaded q hq

theorem SetSound.with_set (h : SetSound s now pid set xs) (sets : ℕ → Option BuffSet) :
    SetSound { s with set := sets } now pid set xs :=
  ⟨h.ring, h.head, h.falling, h.listed, h.alive, h.node, h.unlisted⟩

theorem loadLoop_ok (rest : List Buff) (h : SetSound s now pid set xs) (hfresh : Fresh s) (hpid : ∀ b ∈ rest, b.pid = pid)
    (hdistinct : (rest.map Buff.buffId).Nodup) (hnew : ∀ b ∈ rest, set.m b.buffId = none) :
    ∃ s' set' xs', BuffState.loadLoop now rest s set = .ok (s', set') ∧ SetSound s' now pid set' xs' ∧ Framed s s' pid ∧
      Fresh s' ∧ s'.set = s.set ∧ s'.top = s.top + rest.length ∧
      ∀ id, (set'.m id).map s'.buff = (rest.find? fun b => b.buffId = id).or ((set.m id).map s.buff) := by
  induction rest generalizing s set xs with
  | nil => exact ⟨s, set, xs, rfl, h, .refl s pid, hfresh, rfl, rfl, fun id => rfl⟩
  | cons b rest ih =>
    obtain ⟨hb, hdistinct⟩ := nodup_cons.mp hdistinct
    have hnext : (if rest = [] then none else some (s.top + 1)) ≠ some s.top := by
      split
      · simp
      · simp
    obtain ⟨s₁, list, xs₁, hins, hsound, hframed, hfresh₁, hset₁, htop₁, hmap₁⟩ :=
      h.addNode hfresh (hpid b (by simp)) (hnew b (by simp)) hnext
    have hnew₁ : ∀ c ∈ rest, update set.m b.buffId (some s.top) c.buffId = none := by
      intro c hc
      have hne : c.buffId ≠ b.buffId := fun he => hb (he ▸ mem_map_of_mem hc)
      rw [update_of_ne hne]
      exact hnew c (mem_cons_of_mem b hc)
    obtain ⟨s₂, set₂, xs₂, hloop, hsound₂, hframed₂, hfresh₂, hset₂, htop₂, hmap₂⟩ :=
      ih hsound hfresh₁ (fun c hc => hpid c (mem_cons_of_mem b hc)) hdistinct hnew₁
    refine ⟨s₂, set₂, xs₂, ?_, hsound₂, hframed.trans hframed₂, hfresh₂, hset₂.trans hset₁, ?_, fun id => ?_⟩
    · rw [BuffState.loadLoop]
      simp only [hins, ok_bind]
      exact hloop
    · rw [htop₂, htop₁, length_cons]
      omega
    · rw [hmap₂, hmap₁, List.find?_cons]
      by_cases hid : b.buffId = id
      · subst hid
        have hnone : (rest.find? fun c => c.buffId = b.buffId) = none := by
          rw [List.find?_eq_none]
          intro c hc
          have hne : c.buffId ≠ b.buffId := fun he => hb (he ▸ mem_map_of_mem hc)
          simpa using hne
        simp [hnone]
      · simp [hid, update_of_ne (Ne.symm hid)]

theorem load_ok (h : BuffSound db s now L) (pid : ℕ) : ∃ s₁ set xs, s.load db now pid = .ok (s₁, set) ∧
    BuffSound db s₁ now L ∧ s₁.set = update s.set pid (some set) ∧ SetSound s₁ now pid set xs ∧
    Framed s s₁ pid ∧ s₁.top ≤ s.top + (db.rows pid).length := by
  cases hset : s.set pid with
  | some set =>
    obtain ⟨⟨xs, hsound⟩, -⟩ := h.loaded pid set hset
    refine ⟨s, set, xs, ?_, h, ?_, hsound, .refl s pid, by omega⟩
    · rw [BuffState.load, hset]
    · rw [← hset, update_eq_self]
  | none =>
    have hempty : SetSound s now pid ⟨fun _ => none, none⟩ [] :=
      ⟨dring_nil, rfl, .nil, by simp, by simp, by simp, by simp⟩
    obtain ⟨s₁, set₁, xs₁, hloop, hsound, hframed, hfresh, hset₁, htop, hmap⟩ :=
      loadLoop_ok (db.rows pid) hempty h.fresh (db.pid_eq pid) (db.distinct pid) fun _ _ => rfl
    refine ⟨_, set₁, xs₁, ?_, h.stored hframed hfresh hsound (fun id => ?_) fun _ _ => rfl, rfl, hsound.with_set _,
      hframed, htop.le⟩
    · simp only [BuffState.load, hset, hloop, ok_bind, pure_eq_ok, hset₁]
    · have := hmap id
      rw [h.unloaded pid hset]
      simpa [BuffRows.ledger] using this

theorem Ledger.write_self (L : Ledger) (pid id : ℕ) (b : Option Buff) (i : ℕ) :
    L.write pid id b pid i = update (L pid) id b i := by
  rw [Ledger.write, update_self]

theorem Ledger.write_other {L : Ledger} {q : ℕ} (hq : q ≠ pid) (b : Option Buff) : L.write pid id b q = L q :=
  update_of_ne hq _ _

theorem map_written {m : ℕ → Option ℕ} {f g : ℕ → Buff} {b : Buff} (hm : m id = some a)
    (hmap : ∀ i, (m i).map f = L pid i) (hb : g a = b) (hg : ∀ i c, i ≠ id → m i = some c → g c = f c) (i : ℕ) :
    (m i).map g = L.write pid id (some b) pid i := by
  have hmi := map_update f g hb hg i
  rw [← hm, update_eq_self] at hmi
  rw [hmi, Ledger.write_self]
  exact congrArg (fun f => update f id (some b) i) (funext hmap)

theorem resort_ok (h : BuffSound db s now L) (hset : s.set pid = some set) (hm : set.m id = some a) {b : Buff}
    (hb : b.pid = pid ∧ b.buffId = id) : ∃ s', s.resort now pid set a b = .ok s' ∧
    BuffSound db s' now (L.write pid id (some b)) ∧ ∃ set', s'.set = update s.set pid (some set') := by
  obtain ⟨⟨xs, hsound⟩, hmap⟩ := h.loaded pid set hset
  obtain ⟨heap, list, ys, hrem, hwithout, hloose, hframed, halive⟩ := hsound.remove hm hb
  have hfresh : Fresh { s with heap := heap, buff := update s.buff a b } := fun c hc =>
    h.fresh c ((congrFun halive c).symm.trans hc)
  obtain ⟨s₁, list₁, ys₁, hins, hsound₁, hframed₁, hfresh₁, hbuff, hset₁, -⟩ :=
    hwithout.insert hfresh (update_self ..) hloose
  -- the map is what it was
  have hsame : update (update set.m id none) id (some a) = set.m := by
    rw [update_idem, ← hm, update_eq_self]
  rw [hsame] at hsound₁
  have hsets : s₁.set = s.set := hset₁
  refine ⟨_, ?_, h.stored (hframed.trans hframed₁) hfresh₁ hsound₁ (fun i => ?_)
    (fun q hq => Ledger.write_other hq _), _, rfl⟩
  · simp only [BuffState.resort, hrem, ok_bind, hins, pure_eq_ok, hsets]
  · refine map_written hm hmap ?_ (fun i c hi hc => ?_) i
    · rw [hbuff]
      exact update_self ..
    · rw [hbuff]
      refine update_of_ne ?_ _ _
      rintro rfl
      exact hi ((hsound.node i _ hc).2.symm.trans (hsound.node id _ hm).2)

theorem addNew_ok (h : BuffSound db s now L) (hset : s.set pid = some set) {b : Buff} (hm : set.m b.buffId = none)
    (hb : b.pid = pid) : ∃ s', s.addNew now pid set b = .ok s' ∧
    BuffSound db s' now (L.write pid b.buffId (some b)) ∧ ∃ set', s'.set = update s.set pid (some set') := by
  obtain ⟨⟨xs, hsound⟩, hmap⟩ := h.loaded pid set hset
  obtain ⟨s₁, list, ys, hins, hsound₁, hframed, hfresh, hset₁, -, hmap₁⟩ :=
    hsound.addNode h.fresh hb hm (show (none : Option ℕ) ≠ some s.top by simp)
  refine ⟨_, ?_, h.stored hframed hfresh hsound₁ (fun i => ?_) (fun q hq => Ledger.write_other hq _), _, rfl⟩
  · simp only [BuffState.addNew, hins, ok_bind, pure_eq_ok, hset₁]
  · rw [Ledger.write_self]
    refine (hmap₁ i).trans ?_
    exact congrArg (fun f => update f b.buffId (some b) i) (funext hmap)

def Buff.less (b : Buff) (value : ℤ) : Buff := { b with value := toUnsigned (b.value - value) }

theorem reduce_ok (h : BuffSound db s now L) (hset : s.set pid = some set) (hm : set.m id = some a) (more : Bool) (value : ℤ) :
    ∃ s', s.reduce now pid set a more value = .ok s' ∧
      BuffSound db s' now (L.write pid id (if more then some ((s.buff a).less value) else none)) ∧
      ∃ set', s'.set = update s.set pid (some set') := by
  obtain ⟨⟨xs, hsound⟩, hmap⟩ := h.loaded pid set hset
  have hself : s.set = update s.set pid (some set) := by rw [← hset, update_eq_self]
  -- the other ids lead to other nodes
  have hother : ∀ i c, i ≠ id → set.m i = some c → c ≠ a := by
    rintro i c hi hc rfl
    exact hi ((hsound.node i _ hc).2.symm.trans (hsound.node id _ hm).2)
  cases more with
  | true =>
    have hnode : ∀ c, (update s.buff a ((s.buff a).less value) c).pid = (s.buff c).pid ∧
        (update s.buff a ((s.buff a).less value) c).buffId = (s.buff c).buffId ∧
        (update s.buff a ((s.buff a).less value) c).endTime = (s.buff c).endTime := by
      intro c
      by_cases hc : c = a
      · subst hc
        simp [Buff.less]
      · simp [update_of_ne hc]
    have hput : SetSound { s with buff := update s.buff a ((s.buff a).less value) } now pid set xs :=
      hsound.congr fun i c hc => ⟨hsound.alive i c hc, rfl, rfl, hnode c⟩
    have hreduced : s.reduce now pid set a true value =
        .ok { s with
          buff := update s.buff a ((s.buff a).less value)
          set := update s.set pid (some set) } := by
      rw [← hself]
      rfl
    have hframed : Framed s { s with buff := update s.buff a ((s.buff a).less value) } pid := by
      intro c hc hpid
      refine ⟨update_of_ne ?_ _ _, hc, rfl, rfl⟩
      rintro rfl
      exact hpid (hsound.node id _ hm).1
    refine ⟨_, hreduced, h.stored hframed h.fresh hput (fun i => ?_) (fun q hq => Ledger.write_other hq _), _, rfl⟩
    · refine map_written hm hmap ?_ (fun i c hi hc => ?_) i
      · exact update_self ..
      · exact update_of_ne (hother i c hi hc) _ _
  | false =>
    obtain ⟨heap, list, ys, hrem, hwithout, -, hframed, halive⟩ :=
      hsound.remove (b := { s.buff a with endTime := now }) hm (hsound.node id a hm)
    refine ⟨_, ?_, h.stored hframed (fun c hc => h.fresh c ((congrFun halive c).symm.trans hc)) hwithout (fun i => ?_)
      (fun q hq => Ledger.write_other hq _), _, rfl⟩
    · simp only [BuffState.reduce, Bool.false_eq_true, if_false, hrem, ok_bind, pure_eq_ok, (hsound.node id a hm).2]
    · rw [Ledger.write_self]
      by_cases hi : i = id
      · subst hi
        simp
      · simp only [update_of_ne hi, Bool.false_eq_true, if_false]
        rw [← hmap i]
        cases hc : set.m i with
        | none => rfl
        | some c => simp only [map_some, update_of_ne (hother i c hi hc)]

end Ledgers

end CServer.Modules
