import CServer.Lib.Memory
import CServer.Lib.Chain

/-! # `framework/lrm.c`: the resource manager

`max` slots, each with a 32-bit id and a link. `next == 0` marks a slot in use; the other slots
are threaded on the idle list, which ends at the address of `resource_list_end`. Slot `i` starts
with id `i` and gets a new id, `max` larger, each time it is freed, so that `id % max` finds the
slot. The object behind a slot (`objsize` bytes) belongs to the caller: `_agR_get` returns its
slot number here.
-/
namespace CServer.Framework
open CServer.Lib Function List

/-! ## The code -/

def invalidId : ℕ := 2 ^ 32 - 1

inductive Link
  | null
  | listEnd
  | res (index : ℕ)
  deriving DecidableEq, Repr

structure LResource where
  id : ℕ
  next : Link

structure Lrm where
  max : ℕ
  idle : Link
  res : ℕ → LResource

/-- The loop of `init_lrm_idle_list`, from index `i - 1` down to `0`. -/
def initLoop : ℕ → Lrm → Lrm
  | 0, lrm => lrm
  | i + 1, lrm =>
    initLoop i { lrm with res := update lrm.res i ⟨i, lrm.idle⟩, idle := .res i }

variable (lrm : Lrm)

def initLrmIdleList : Lrm := initLoop lrm.max { lrm with idle := .listEnd }

/-- `_agRM_new` when the allocation succeeds: the block is cleared first. -/
def agRMNew (max : ℕ) : Lrm := initLrmIdleList ⟨max, .null, fun _ => ⟨0, .null⟩⟩

def getLresourceByIndex (index : ℕ) : Option ℕ :=
  if lrm.max ≤ index then none else some index

/-- `get_lresource`. With `max ≥ 1` the index is in range. -/
def getLresource (id : ℕ) : Option ℕ :=
  match getLresourceByIndex lrm (id % lrm.max) with
  | none => none
  | some index => if (lrm.res index).id ≠ id then none else some index

/-- `_agR_new`. A `NULL` idle pointer would be dereferenced. -/
def agRNew : Except Fault (ℕ × Lrm) :=
  match lrm.idle with
  | .listEnd => .ok (invalidId, lrm)
  | .null => .error .outOfBounds
  | .res i =>
    .ok ((lrm.res i).id,
      { lrm with idle := (lrm.res i).next, res := update lrm.res i ⟨(lrm.res i).id, .null⟩ })

def agRGet (id : ℕ) : Option ℕ := getLresource lrm id

/-- The id a slot gets when it is freed, in `resid_t` arithmetic. -/
def newId (max id : ℕ) : ℕ :=
  let id := (id + max) % 2 ^ 32
  if id = invalidId then (id + max) % 2 ^ 32 else id

def agRFree (id : ℕ) : Lrm :=
  match getLresource lrm id with
  | none => lrm
  | some i =>
    { lrm with res := update lrm.res i ⟨newId lrm.max (lrm.res i).id, lrm.idle⟩, idle := .res i }

def nextLoop (lrm : Lrm) : ℕ → ℕ → ℕ
  | 0, _ => invalidId
  | n + 1, index =>
    if (lrm.res index).next = .null then (lrm.res index).id else nextLoop lrm n (index + 1)

def agRNext (ite : ℕ) : ℕ :=
  let index := if ite = invalidId then 0 else ite % lrm.max + 1
  nextLoop lrm (lrm.max - index) index

/-- `ids` is what a loop `while ((ite = _agR_next(lrm, ite)) != INVALID_ID)` goes through. -/
inductive Iterates (lrm : Lrm) : ℕ → List ℕ → Prop
  | stop {ite : ℕ} (h : agRNext lrm ite = invalidId) : Iterates lrm ite []
  | next {ite : ℕ} {ids : List ℕ} (h : agRNext lrm ite ≠ invalidId)
      (rest : Iterates lrm (agRNext lrm ite) ids) : Iterates lrm ite (agRNext lrm ite :: ids)

/-! ## Histories

`live` are the ids handed out and not freed since, `freed` the ids freed so far. -/

def unwrappedId (max id : ℕ) : ℕ := if id + max = invalidId then id + max + max else id + max

inductive LrmHistory (max : ℕ) : Lrm → List ℕ → List ℕ → Prop
  | init : LrmHistory max (agRMNew max) [] []
  | new {lrm lrm' : Lrm} {live freed : List ℕ} {id : ℕ} (h : LrmHistory max lrm live freed)
      (hnew : agRNew lrm = .ok (id, lrm')) (hid : id ≠ invalidId) :
      LrmHistory max lrm' (id :: live) freed
  | full {lrm lrm' : Lrm} {live freed : List ℕ} (h : LrmHistory max lrm live freed)
      (hnew : agRNew lrm = .ok (invalidId, lrm')) : LrmHistory max lrm' live freed
  | free {lrm : Lrm} {live freed : List ℕ} {id : ℕ} (h : LrmHistory max lrm live freed)
      (hlive : id ∈ live) (hwrap : unwrappedId max id < 2 ^ 32) :
      LrmHistory max (agRFree lrm id) (live.erase id) (id :: freed)

/-! ## The invariant of a manager -/

def Lrm.IdleChain (xs : List ℕ) : Prop :=
  Chain (fun i => (lrm.res i).next) Link.res Link.listEnd lrm.idle xs

def Lrm.inUse (i : ℕ) : Prop := (lrm.res i).next = .null

def Lrm.IdleListed : Prop :=
  ∃ xs, lrm.IdleChain xs ∧ xs.Nodup ∧ ∀ i, i ∈ xs ↔ i < lrm.max ∧ ¬ lrm.inUse i

structure Lrm.Ok (lrm : Lrm) : Prop where
  max_pos : 1 ≤ lrm.max
  max_lt : lrm.max < 2 ^ 31
  slot : ∀ i < lrm.max, (lrm.res i).id % lrm.max = i
  valid : ∀ i < lrm.max, (lrm.res i).id < invalidId
  idle : ∃ xs, lrm.IdleChain xs ∧ xs.Nodup ∧ ∀ i, i ∈ xs ↔ i < lrm.max ∧ ¬ lrm.inUse i

theorem initLoop_max (n : ℕ) (lrm : Lrm) : (initLoop n lrm).max = lrm.max := by
  induction n generalizing lrm with
  | zero => rfl
  | succ n ih => rw [initLoop, ih]

theorem initLoop_id (n : ℕ) (lrm : Lrm) (i : ℕ) :
    ((initLoop n lrm).res i).id = if i < n then i else (lrm.res i).id := by
  induction n generalizing lrm with
  | zero => simp [initLoop]
  | succ n ih =>
    rw [initLoop, ih]
    by_cases h : i = n
    · subst h
      simp
    · have e : i < n + 1 ↔ i < n := by omega
      simp only [e, update_of_ne h]

theorem initLoop_idle (n : ℕ) : ∀ (lrm : Lrm) (xs : List ℕ), lrm.IdleChain xs → (∀ x ∈ xs, n ≤ x) →
    (initLoop n lrm).IdleChain (List.range n ++ xs) := by
  induction n with
  | zero =>
    intro lrm xs h _
    exact h
  | succ n ih =>
    intro lrm xs h hge
    have hn : n ∉ xs := fun hmem => by have := hge n hmem; omega
    have hpush : Lrm.IdleChain
        { lrm with res := update lrm.res n ⟨n, lrm.idle⟩, idle := .res n } (n :: xs) := by
      refine (h.push hn).congr ?_
      intro y _
      by_cases hy : y = n
      · subst hy
        simp
      · simp [update_of_ne hy]
    have h1 := ih _ (n :: xs) hpush (by
      intro x hx
      rcases mem_cons.mp hx with rfl | hx
      · exact le_refl _
      · have := hge x hx
        omega)
    rw [initLoop, range_succ, append_assoc]
    exact h1

variable {i : ℕ} {lrm : Lrm}

theorem Lrm.IdleChain.not_inUse {xs : List ℕ} (h : lrm.IdleChain xs) (hi : i ∈ xs) :
    ¬ lrm.inUse i := by
  intro hnull
  rcases h.next_mem hi with hn | ⟨y, -, hn⟩
  · exact absurd (hnull.symm.trans hn) (by simp)
  · exact absurd (hnull.symm.trans hn) (by simp)

theorem agRMNew_idle (max : ℕ) : (agRMNew max).IdleChain (List.range max) := by
  have h := initLoop_idle max ⟨max, .listEnd, fun _ => ⟨0, .null⟩⟩ [] rfl (by simp)
  rwa [append_nil] at h

theorem agRMNew_max (max : ℕ) : (agRMNew max).max = max := initLoop_max _ _

theorem agRMNew_ok (max : ℕ) (hpos : 1 ≤ max) (hlt : max < 2 ^ 31) : (agRMNew max).Ok := by
  have hmax := agRMNew_max max
  have hid : ∀ i < max, ((agRMNew max).res i).id = i := by
    intro i hi
    rw [agRMNew, initLrmIdleList, initLoop_id, if_pos hi]
  have hidle := agRMNew_idle max
  refine ⟨by rw [hmax]; exact hpos, by rw [hmax]; exact hlt, ?_, ?_, List.range max, hidle,
    nodup_range, ?_⟩
  · intro i hi
    rw [hmax] at hi ⊢
    rw [hid i hi, Nat.mod_eq_of_lt hi]
  · intro i hi
    rw [hmax] at hi
    rw [hid i hi, invalidId]
    omega
  · intro i
    rw [hmax, mem_range]
    exact ⟨fun hi => ⟨hi, hidle.not_inUse (mem_range.mpr hi)⟩, fun hi => hi.1⟩

/-! ## One step -/

variable {id : ℕ}

theorem agRGet_eq_some (h : lrm.Ok) :
    agRGet lrm id = some i ↔ i < lrm.max ∧ (lrm.res i).id = id := by
  have hpos := h.max_pos
  have hlt : id % lrm.max < lrm.max := Nat.mod_lt _ hpos
  simp only [agRGet, getLresource, getLresourceByIndex, not_le.mpr hlt, if_false]
  by_cases hid : (lrm.res (id % lrm.max)).id = id
  · simp only [hid, ne_eq, not_true_eq_false, if_false, Option.some.injEq]
    constructor
    · rintro rfl
      exact ⟨hlt, hid⟩
    · rintro ⟨hi, rfl⟩
      exact h.slot i hi
  · simp only [ne_eq, hid, not_false_eq_true, if_true]
    constructor
    · intro hn
      cases hn
    · rintro ⟨hi, rfl⟩
      rw [h.slot i hi] at hid
      exact absurd rfl hid

theorem agRNew_res_id (i j : ℕ) :
    (update lrm.res i ⟨(lrm.res i).id, .null⟩ j).id = (lrm.res j).id := by
  by_cases hj : j = i
  · subst hj
    simp
  · rw [update_of_ne hj]

theorem Lrm.IdleListed.new_cases (h : lrm.IdleListed) :
    (lrm.idle = .listEnd ∧ agRNew lrm = .ok (invalidId, lrm) ∧ ∀ i < lrm.max, lrm.inUse i) ∨
    ∃ i lrm', i < lrm.max ∧ ¬ lrm.inUse i ∧ lrm.idle = .res i ∧
      agRNew lrm = .ok ((lrm.res i).id, lrm') ∧ lrm'.IdleListed ∧
      lrm'.max = lrm.max ∧ lrm'.res = update lrm.res i ⟨(lrm.res i).id, .null⟩ := by
  obtain ⟨xs, hchain, hnodup, hmem⟩ := h
  cases xs with
  | nil =>
    have hidle : lrm.idle = .listEnd := hchain
    refine .inl ⟨hidle, by rw [agRNew, hidle], fun i hi => ?_⟩
    by_contra hn
    exact absurd ((hmem i).mpr ⟨hi, hn⟩) (by simp)
  | cons i xs =>
    obtain ⟨hidle, htail⟩ := hchain
    obtain ⟨hi, hni⟩ := (hmem i).mp (by simp)
    obtain ⟨hixs, hnodup⟩ := nodup_cons.mp hnodup
    refine .inr ⟨i, ⟨lrm.max, (lrm.res i).next, update lrm.res i ⟨(lrm.res i).id, .null⟩⟩,
      hi, hni, hidle, by rw [agRNew, hidle], ⟨xs, ?_, hnodup, fun j => ?_⟩, rfl, rfl⟩
    · refine Chain.congr htail ?_
      intro y hy
      have hne : y ≠ i := by
        rintro rfl
        exact hixs hy
      simp only [update_of_ne hne]
    · by_cases hj : j = i
      · subst hj
        simp [hixs, Lrm.inUse]
      · have := hmem j
        simp only [mem_cons, hj, false_or] at this
        rw [this]
        simp only [Lrm.inUse, update_of_ne hj]

theorem agRNew_cases (h : lrm.Ok) :
    (agRNew lrm = .ok (invalidId, lrm) ∧ ∀ i < lrm.max, lrm.inUse i) ∨
    ∃ i lrm', i < lrm.max ∧ ¬ lrm.inUse i ∧ agRNew lrm = .ok ((lrm.res i).id, lrm') ∧ lrm'.Ok ∧
      lrm'.max = lrm.max ∧ lrm'.res = update lrm.res i ⟨(lrm.res i).id, .null⟩ := by
  rcases Lrm.IdleListed.new_cases h.idle with ⟨-, hfail, hall⟩ | ⟨i, lrm', hi, hni, -, hnew, hidle, hmax, hres⟩
  · exact .inl ⟨hfail, hall⟩
  · refine .inr ⟨i, lrm', hi, hni, hnew, ?_, hmax, hres⟩
    refine ⟨hmax ▸ h.max_pos, hmax ▸ h.max_lt, fun j hj => ?_, fun j hj => ?_, hidle⟩
    · rw [hmax] at hj ⊢
      rw [hres, agRNew_res_id]
      exact h.slot j hj
    · rw [hmax] at hj
      rw [hres, agRNew_res_id]
      exact h.valid j hj

variable {lrm' : Lrm}

theorem agRNew_inUse (hres : lrm'.res = update lrm.res i ⟨id, .null⟩) {j : ℕ} :
    lrm'.inUse j ↔ j = i ∨ lrm.inUse j := by
  rw [Lrm.inUse, hres]
  by_cases hj : j = i
  · subst hj
    simp
  · rw [update_of_ne hj]
    simp [hj, Lrm.inUse]

variable {max : ℕ}

theorem newId_ne_invalid (hpos : 1 ≤ max) (hlt : max < 2 ^ 31) :
    newId max id < invalidId := by
  have h1 : (id + max) % 2 ^ 32 < 2 ^ 32 := Nat.mod_lt _ (by norm_num)
  have h2 : invalidId = 2 ^ 32 - 1 := rfl
  simp only [newId]
  split
  · next h =>
    rw [h]
    omega
  · omega

theorem Lrm.IdleListed.free (h : lrm.IdleListed) (hi : i < lrm.max)
    (huse : lrm.inUse i) (id : ℕ) :
    Lrm.IdleListed ⟨lrm.max, .res i, update lrm.res i ⟨id, lrm.idle⟩⟩ := by
  obtain ⟨xs, hchain, hnodup, hmem⟩ := h
  have hixs : i ∉ xs := fun hx => ((hmem i).mp hx).2 huse
  have hpush : Lrm.IdleChain ⟨lrm.max, .res i, update lrm.res i ⟨id, lrm.idle⟩⟩ (i :: xs) := by
    refine (hchain.push hixs).congr ?_
    intro y _
    by_cases hy : y = i
    · subst hy
      simp
    · simp [update_of_ne hy]
  refine ⟨i :: xs, hpush, nodup_cons.mpr ⟨hixs, hnodup⟩, fun j => ?_⟩
  by_cases hji : j = i
  · subst hji
    exact ⟨fun _ => ⟨hi, hpush.not_inUse (by simp)⟩, fun _ => by simp⟩
  · have := hmem j
    simp only [mem_cons, hji, false_or, this, Lrm.inUse, update_of_ne hji]

theorem agRFree_spec (h : lrm.Ok) (hi : i < lrm.max) (huse : lrm.inUse i)
    (hslot : newId lrm.max (lrm.res i).id % lrm.max = i) :
    (agRFree lrm (lrm.res i).id).Ok ∧ (agRFree lrm (lrm.res i).id).max = lrm.max ∧
      (agRFree lrm (lrm.res i).id).res =
        update lrm.res i ⟨newId lrm.max (lrm.res i).id, lrm.idle⟩ := by
  have hget : getLresource lrm (lrm.res i).id = some i := (agRGet_eq_some h).mpr ⟨hi, rfl⟩
  have hfree : agRFree lrm (lrm.res i).id = ⟨lrm.max, .res i,
      update lrm.res i ⟨newId lrm.max (lrm.res i).id, lrm.idle⟩⟩ := by
    rw [agRFree, hget]
  rw [hfree]
  refine ⟨⟨h.max_pos, h.max_lt, fun j hj => ?_, fun j hj => ?_,
    Lrm.IdleListed.free h.idle hi huse _⟩, rfl, rfl⟩
  · by_cases hji : j = i
    · subst hji
      simpa using hslot
    · simp only [update_of_ne hji]
      exact h.slot j hj
  · by_cases hji : j = i
    · subst hji
      simpa using newId_ne_invalid h.max_pos h.max_lt
    · simp only [update_of_ne hji]
      exact h.valid j hj

theorem Lrm.IdleListed.idle_ne_null (h : lrm.IdleListed) : lrm.idle ≠ .null := by
  obtain ⟨xs, hchain, -, -⟩ := h
  cases xs with
  | nil => exact fun hnull => absurd (hnull.symm.trans hchain) (by simp)
  | cons x xs => exact fun hnull => absurd (hnull.symm.trans hchain.1) (by simp)

theorem agRFree_inUse (h : lrm.IdleListed)
    (hres : lrm'.res = update lrm.res i ⟨id, lrm.idle⟩) {j : ℕ} :
    lrm'.inUse j ↔ j ≠ i ∧ lrm.inUse j := by
  rw [Lrm.inUse, hres]
  by_cases hj : j = i
  · subst hj
    simp [h.idle_ne_null]
  · rw [update_of_ne hj]
    simp [hj, Lrm.inUse]

/-! ## Histories without wrap -/

theorem newId_unwrapped (hpos : 1 ≤ max) (h : unwrappedId max id < 2 ^ 32) :
    newId max id = id + max ∧ id + max < invalidId := by
  have hinv : invalidId = 2 ^ 32 - 1 := rfl
  have hne : id + max < invalidId := by
    unfold unwrappedId at h
    split at h
    · omega
    · omega
  have hmod : (id + max) % 2 ^ 32 = id + max := Nat.mod_eq_of_lt (by omega)
  refine ⟨?_, hne⟩
  simp only [newId, hmod, Nat.ne_of_lt hne, if_false]

/-- What a history leaves behind: the live ids are the ids of the slots in use, and a slot an id
was taken from carries a larger id once that id is freed. -/
structure LrmHistory.Inv (max : ℕ) (lrm : Lrm) (live freed : List ℕ) : Prop where
  ok : lrm.Ok
  max_eq : lrm.max = max
  live_nodup : live.Nodup
  live_iff : ∀ id, id ∈ live ↔ ∃ i < max, lrm.inUse i ∧ (lrm.res i).id = id
  freed_lt : ∀ id ∈ freed, id < (lrm.res (id % max)).id

variable {live freed : List ℕ}

theorem LrmHistory.inv_new
    (h : Inv max lrm live freed) (hnew : agRNew lrm = .ok (id, lrm')) (hid : id ≠ invalidId) :
    Inv max lrm' (id :: live) freed := by
  rcases agRNew_cases h.ok with ⟨hfail, -⟩ | ⟨i, lrm₁, hi, huse, hok, hlrm, hmax, hres⟩
  · rw [hnew, ok_pair_iff] at hfail
    exact absurd hfail.1 hid
  rw [hnew, ok_pair_iff] at hok
  obtain ⟨rfl, rfl⟩ := hok
  have hids : ∀ j, (lrm'.res j).id = (lrm.res j).id := by
    intro j
    rw [hres]
    by_cases hj : j = i
    · subst hj
      simp
    · rw [update_of_ne hj]
  have huses : ∀ j, lrm'.inUse j ↔ j = i ∨ lrm.inUse j := fun j => agRNew_inUse hres
  rw [h.max_eq] at hi
  refine ⟨hlrm, hmax.trans h.max_eq, nodup_cons.mpr ⟨?_, h.live_nodup⟩, fun id => ?_, fun id hf => ?_⟩
  · rw [h.live_iff]
    rintro ⟨j, hj, hju, hjid⟩
    have hslot := h.ok.slot
    rw [h.max_eq] at hslot
    have : j = i := by rw [← hslot j hj, hjid, hslot i hi]
    exact huse (this ▸ hju)
  · simp only [mem_cons, h.live_iff, hids, huses]
    constructor
    · rintro (rfl | ⟨j, hj, hju, hjid⟩)
      · exact ⟨i, hi, .inl rfl, rfl⟩
      · exact ⟨j, hj, .inr hju, hjid⟩
    · rintro ⟨j, hj, rfl | hju, hjid⟩
      · exact .inl hjid.symm
      · exact .inr ⟨j, hj, hju, hjid⟩
  · rw [hids]
    exact h.freed_lt id hf

theorem LrmHistory.inv_free
    (h : Inv max lrm live freed) (hlive : id ∈ live) (hwrap : unwrappedId max id < 2 ^ 32) :
    Inv max (agRFree lrm id) (live.erase id) (id :: freed) := by
  obtain ⟨i, hi, huse, rfl⟩ := (h.live_iff id).mp hlive
  have hslot := h.ok.slot
  have hpos := h.ok.max_pos
  rw [h.max_eq] at hslot hpos
  obtain ⟨hnew, -⟩ := newId_unwrapped hpos hwrap
  have hnewslot : newId lrm.max (lrm.res i).id % lrm.max = i := by
    rw [h.max_eq, hnew, Nat.add_mod_right, hslot i hi]
  obtain ⟨hok, hmax, hres⟩ := agRFree_spec h.ok (by rw [h.max_eq]; exact hi) huse hnewslot
  have hother : ∀ j, j ≠ i → (agRFree lrm (lrm.res i).id).res j = lrm.res j := by
    intro j hj
    rw [hres, update_of_ne hj]
  have hself : ((agRFree lrm (lrm.res i).id).res i).id = (lrm.res i).id + max := by
    rw [hres, update_self, h.max_eq, hnew]
  have hnotuse : ¬ (agRFree lrm (lrm.res i).id).inUse i := fun hn =>
    ((agRFree_inUse h.ok.idle hres).mp hn).1 rfl
  refine ⟨hok, hmax.trans h.max_eq, h.live_nodup.erase _, fun id => ?_, fun id hf => ?_⟩
  · rw [h.live_nodup.mem_erase_iff, h.live_iff]
    constructor
    · rintro ⟨hne, j, hj, hju, rfl⟩
      have hji : j ≠ i := fun e => hne (by rw [e])
      exact ⟨j, hj, by rw [Lrm.inUse, hother j hji]; exact hju, by rw [hother j hji]⟩
    · rintro ⟨j, hj, hju, rfl⟩
      have hji : j ≠ i := fun e => hnotuse (e ▸ hju)
      rw [Lrm.inUse, hother j hji] at hju
      rw [hother j hji]
      refine ⟨fun e => hji ?_, j, hj, hju, rfl⟩
      rw [← hslot j hj, e, hslot i hi]
  · rcases mem_cons.mp hf with rfl | hf
    · rw [hslot i hi, hself]
      omega
    · have hlt := h.freed_lt id hf
      by_cases hji : id % max = i
      · rw [hji, hself]
        rw [hji] at hlt
        omega
      · rw [hother _ hji]
        exact hlt

theorem LrmHistory.inv (hpos : 1 ≤ max) (hlt : max < 2 ^ 31)
    (h : LrmHistory max lrm live freed) : Inv max lrm live freed := by
  induction h with
  | init =>
    refine ⟨agRMNew_ok max hpos hlt, agRMNew_max max, nodup_nil, fun id => ?_, by simp⟩
    simp only [not_mem_nil, false_iff, not_exists, not_and]
    intro i hi huse
    exact absurd huse ((agRMNew_idle max).not_inUse (mem_range.mpr hi))
  | new _ hnew hid ih => exact inv_new ih hnew hid
  | full _ hnew ih =>
    rcases agRNew_cases ih.ok with ⟨hfail, -⟩ | ⟨i, lrm₁, hi, huse, hok, -⟩
    · rw [hnew, ok_pair_iff] at hfail
      rw [hfail.2]
      exact ih
    · rw [hnew, ok_pair_iff] at hok
      have := ih.ok.valid i hi
      rw [← hok.1] at this
      omega
  | free _ hlive hwrap ih => exact inv_free ih hlive hwrap

/-! ## Iteration -/

def idsFrom (lrm : Lrm) : ℕ → ℕ → List ℕ
  | 0, _ => []
  | n + 1, index =>
    if (lrm.res index).next = .null then (lrm.res index).id :: idsFrom lrm n (index + 1)
    else idsFrom lrm n (index + 1)

theorem mem_idsFrom (n index id : ℕ) :
    id ∈ idsFrom lrm n index ↔ ∃ i, index ≤ i ∧ i < index + n ∧ lrm.inUse i ∧ (lrm.res i).id = id := by
  induction n generalizing index with
  | zero =>
    simp only [idsFrom, not_mem_nil, false_iff]
    rintro ⟨i, h1, h2, -⟩
    omega
  | succ n ih =>
    have hsplit : (∃ i, index ≤ i ∧ i < index + (n + 1) ∧ lrm.inUse i ∧ (lrm.res i).id = id) ↔
        (lrm.inUse index ∧ (lrm.res index).id = id) ∨
        ∃ i, index + 1 ≤ i ∧ i < index + 1 + n ∧ lrm.inUse i ∧ (lrm.res i).id = id := by
      constructor
      · rintro ⟨i, h1, h2, h3⟩
        by_cases he : i = index
        · exact .inl (he ▸ h3)
        · exact .inr ⟨i, by omega, by omega, h3⟩
      · rintro (h3 | ⟨i, h1, h2, h3⟩)
        · exact ⟨index, le_refl _, by omega, h3⟩
        · exact ⟨i, by omega, by omega, h3⟩
    rw [hsplit, idsFrom, ← ih]
    by_cases hu : (lrm.res index).next = .null
    · simp [hu, Lrm.inUse, eq_comm]
    · simp [hu, Lrm.inUse]

theorem idsFrom_nodup (h : lrm.Ok) (n index : ℕ) (hn : index + n ≤ lrm.max) :
    (idsFrom lrm n index).Nodup := by
  induction n generalizing index with
  | zero => exact nodup_nil
  | succ n ih =>
    have htail := ih (index + 1) (by omega)
    rw [idsFrom]
    split
    · refine nodup_cons.mpr ⟨?_, htail⟩
      rw [mem_idsFrom]
      rintro ⟨i, h1, h2, -, hid⟩
      have h3 := h.slot i (by omega)
      rw [hid, h.slot index (by omega)] at h3
      omega
    · exact htail

theorem iterates_idsFrom (h : lrm.Ok) (n : ℕ) : ∀ index ite, index + n = lrm.max →
    agRNext lrm ite = nextLoop lrm n index → Iterates lrm ite (idsFrom lrm n index) := by
  induction n with
  | zero =>
    intro index ite _ hnext
    exact .stop hnext
  | succ n ih =>
    intro index ite hn hnext
    rw [nextLoop] at hnext
    rw [idsFrom]
    split
    · next hu =>
      rw [if_pos hu] at hnext
      have hne : (lrm.res index).id ≠ invalidId := Nat.ne_of_lt (h.valid index (by omega))
      have hrest : agRNext lrm (lrm.res index).id = nextLoop lrm n (index + 1) := by
        have hrem : lrm.max - (index + 1) = n := by omega
        simp only [agRNext, hne, if_false, h.slot index (by omega), hrem]
      have hit := ih (index + 1) (lrm.res index).id (by omega) hrest
      rw [← hnext] at hit hne ⊢
      exact .next hne hit
    · next hu =>
      rw [if_neg hu] at hnext
      exact ih (index + 1) ite (by omega) hnext

/-! ## The ids before wrap -/

theorem LrmHistory.Inv.partition
    (h : LrmHistory.Inv max lrm live freed) :
    (live.map (· % max)).Nodup ∧ ∀ i, i ∈ live.map (· % max) ↔ i < max ∧ lrm.inUse i := by
  have hslot := h.ok.slot
  rw [h.max_eq] at hslot
  refine ⟨?_, fun i => ?_⟩
  · refine Nodup.map_on ?_ h.live_nodup
    intro id hid id' hid' he
    obtain ⟨i, hi, -, rfl⟩ := (h.live_iff id).mp hid
    obtain ⟨j, hj, -, rfl⟩ := (h.live_iff id').mp hid'
    rw [hslot i hi, hslot j hj] at he
    rw [he]
  · rw [mem_map]
    constructor
    · rintro ⟨id, hid, rfl⟩
      obtain ⟨i, hi, hu, rfl⟩ := (h.live_iff id).mp hid
      rw [hslot i hi]
      exact ⟨hi, hu⟩
    · rintro ⟨hi, hu⟩
      exact ⟨(lrm.res i).id, (h.live_iff _).mpr ⟨i, hi, hu, rfl⟩, hslot i hi⟩

theorem LrmHistory.Inv.live_length
    (h : LrmHistory.Inv max lrm live freed) :
    live.length = max ↔ ∀ i < max, lrm.inUse i := by
  obtain ⟨hnodup, hmem⟩ := h.partition
  have hsub : live.map (· % max) ⊆ List.range max := fun i hi => mem_range.mpr ((hmem i).mp hi).1
  have hsp : (live.map (· % max)).Subperm (List.range max) := hnodup.subperm hsub
  constructor
  · intro hl i hi
    have hperm : (live.map (· % max)).Perm (List.range max) :=
      hsp.perm_of_length_le (by rw [length_map, length_range, hl])
    exact ((hmem i).mp (hperm.mem_iff.mpr (mem_range.mpr hi))).2
  · intro hall
    have hperm : (live.map (· % max)).Perm (List.range max) := by
      rw [perm_ext_iff_of_nodup hnodup nodup_range]
      intro i
      rw [hmem, mem_range]
      exact ⟨fun hi => hi.1, fun hi => ⟨hi, hall i hi⟩⟩
    have := hperm.length_eq
    rwa [length_map, length_range] at this

/-- After any history of allocations and of frees of live ids in which no id wraps: the live ids and their slots are distinct,
the idle list holds every other slot once, `_agR_new` fails exactly when `max` ids are live, freed ids resolve to nothing,
and `_agR_next` enumerates the live ids. -/
theorem lrm_before_wrap {max : ℕ} (hpos : 1 ≤ max) (hlt : max < 2 ^ 31) {lrm : Lrm}
    {live freed : List ℕ} (h : LrmHistory max lrm live freed) :
    (live.Nodup ∧ (live.map (· % max)).Nodup) ∧
    (∃ xs, lrm.IdleChain xs ∧ xs.Nodup ∧ ∀ i, i ∈ xs ↔ i < max ∧ i ∉ live.map (· % max)) ∧
    ((∃ id lrm', agRNew lrm = .ok (id, lrm')) ∧
      ((∃ lrm', agRNew lrm = .ok (invalidId, lrm')) ↔ live.length = max)) ∧
    (∀ id ∈ freed, agRGet lrm id = none) ∧
    ∃ ids, Iterates lrm invalidId ids ∧ ids.Perm live := by
  have hinv := h.inv hpos hlt
  have hok := hinv.ok
  obtain ⟨hnodup, hmem⟩ := hinv.partition
  refine ⟨⟨hinv.live_nodup, hnodup⟩, ?_, ?_, ?_, ?_⟩
  · obtain ⟨xs, hchain, hxs, hxmem⟩ := hok.idle
    refine ⟨xs, hchain, hxs, fun i => ?_⟩
    rw [hxmem, hinv.max_eq, hmem]
    exact ⟨fun hi => ⟨hi.1, fun hu => hi.2 hu.2⟩, fun hi => ⟨hi.1, fun hu => hi.2 ⟨hi.1, hu⟩⟩⟩
  · rw [hinv.live_length]
    rcases agRNew_cases hok with ⟨hfail, hall⟩ | ⟨i, lrm', hi, huse, hnew, -⟩
    · rw [hinv.max_eq] at hall
      exact ⟨⟨_, _, hfail⟩, ⟨fun _ => hall, fun _ => ⟨lrm, hfail⟩⟩⟩
    · refine ⟨⟨_, _, hnew⟩, ⟨?_, fun hall => absurd (hall i (hinv.max_eq ▸ hi)) huse⟩⟩
      rintro ⟨lrm₁, hfail⟩
      rw [hnew, ok_pair_iff] at hfail
      exact absurd hfail.1 (Nat.ne_of_lt (hok.valid i hi))
  · intro id hid
    have hlt := hinv.freed_lt id hid
    cases hg : agRGet lrm id with
    | none => rfl
    | some i =>
      obtain ⟨hi, rfl⟩ := (agRGet_eq_some hok).mp hg
      have hs := hok.slot i hi
      rw [hinv.max_eq] at hs
      rw [hs] at hlt
      omega
  · have hstart : agRNext lrm invalidId = nextLoop lrm lrm.max 0 := by
      simp only [agRNext, if_true, Nat.sub_zero]
    refine ⟨idsFrom lrm lrm.max 0, iterates_idsFrom hok lrm.max 0 invalidId (by omega) hstart, ?_⟩
    rw [perm_ext_iff_of_nodup (idsFrom_nodup hok lrm.max 0 (by omega)) hinv.live_nodup]
    intro id
    rw [mem_idsFrom, hinv.live_iff, hinv.max_eq]
    constructor
    · rintro ⟨i, -, hi, hu, hid⟩
      exact ⟨i, by omega, hu, hid⟩
    · rintro ⟨i, hi, hu, hid⟩
      exact ⟨i, by omega, by omega, hu, hid⟩

theorem lrm_before_wrap_two_slots :
    ∃ lrm, LrmHistory 2 lrm [1] [0] ∧ agRGet lrm 0 = none ∧ ∃ ids, Iterates lrm invalidId ids ∧ ids.Perm [1] := by
  have h1 : LrmHistory 2 _ [0] [] := .new .init rfl (by decide)
  have h2 : LrmHistory 2 _ [1, 0] [] := .new h1 rfl (by decide)
  have h3 := @LrmHistory.free 2 _ _ _ 0 h2 (by decide) (by decide)
  have h := lrm_before_wrap (by decide) (by decide) h3
  exact ⟨_, h3, h.2.2.2.1 0 (by simp), h.2.2.2.2⟩

end CServer.Framework
