import CServer.Lib.Keyed
import CServer.Lib.Memory
import CServer.Lib.Exec

/-! # `world/modules/equip.c`: equips and the slots they are worn in

An equip remembers the hero that wears it and a packed `placeholder` (a position in the low byte, a
group in the next one); `set->fight_formation` finds the equip worn in a slot. An equip is identified
by its address `ptr`, which is what the slots hold: an address stays in a slot after the equip it
belonged to is gone, unless it is taken out.

`heroid`, the affixes, the values of `EquipValue`, the map by uuid and the notifications play no part in
the slots and are left out. `count` is the number of slots of a hero, `equip_in_battle_count()`.
-/
namespace CServer.Modules
open CServer.Lib Function
open List hiding lookup set

/-! ## The code -/

structure Equip where
  ptr : ℕ
  pid : ℕ
  heroUuid : ℕ
  placeholder : ℤ

/-- The arrays of `fight_formation`, by hero; `none` before `array_new`. -/
structure EquipSet where
  list : List Equip
  formation : ℕ → Option (ℕ → Option ℕ)

def equipIntoBattleMax : ℤ := 12

/-- `equip_in_battle_count`, from `para2` of the common configurations 12 and 13 where they exist. -/
def equipInBattleCount (commonCfg1 commonCfg2 : Option ℤ) : ℤ :=
  let addonGroup1 := commonCfg1.getD 0
  let addonGroup2 := commonCfg2.getD 0
  equipIntoBattleMax + (if addonGroup1 > addonGroup2 then addonGroup1 else addonGroup2) * equipIntoBattleMax

/-- `slot - 1` for a placeholder, where the functions do not return early. -/
def slotOf (count placeholder : ℤ) : Option ℕ :=
  let pos := placeholder % 256
  if pos = 0 ∨ pos > equipIntoBattleMax then none
  else
    let group := placeholder / 256 % 256
    let slot := group * equipIntoBattleMax + pos
    if slot ≤ 0 ∨ slot > count then none else some (slot - 1).toNat

namespace EquipSet

variable (count : ℤ)

variable (set : EquipSet)

variable (equip : Equip)

def addEquipToHero : Except Fault EquipSet :=
  match slotOf count equip.placeholder with
  | none => .ok set
  | some i => do
    let arr := (set.formation equip.heroUuid).getD fun _ => none
    assert (arr i).isNone
    return { set with
      formation := update set.formation equip.heroUuid (some (update arr i (some equip.ptr))) }

def removeEquipFromHero : Except Fault EquipSet :=
  match slotOf count equip.placeholder with
  | none => .ok set
  | some i =>
    match set.formation equip.heroUuid with
    | none => .error .assertion
    | some arr => do
      assert (decide (arr i = some equip.ptr))
      return { set with
        formation := update set.formation equip.heroUuid (some (update arr i none)) }

def getEquipFromHero (heroUuid : ℕ) (placeholder : ℤ) : Option ℕ :=
  match slotOf count placeholder with
  | none => none
  | some i =>
    match set.formation heroUuid with
    | none => none
    | some arr => arr i

def loadRow (row : Equip) : Except Fault EquipSet :=
  let cur := if row.placeholder = 0 then { row with heroUuid := 0 } else row
  { set with list := set.list ++ [cur] }.addEquipToHero count cur

def empty : EquipSet := ⟨[], fun _ => none⟩

def equipLoad (count : ℤ) : EquipSet → List Equip → Except Fault EquipSet
  | set, [] => .ok set
  | set, row :: rows => do
    let set ← set.loadRow count row
    equipLoad count set rows

def equipAdd (pid ptr : ℕ) : EquipSet := { set with list := set.list ++ [⟨ptr, pid, 0, 0⟩] }

/-- `array_set(arr, placeholder - 1, 0)`: the index is converted to `size_t` and checked. -/
def clearAt (arr : ℕ → Option ℕ) (placeholder : ℤ) : ℕ → Option ℕ :=
  if 1 ≤ placeholder ∧ placeholder - 1 < count then update arr (placeholder - 1).toNat none else arr

def equipDelete : EquipSet where
  list := discard Equip.ptr equip.ptr set.list
  formation :=
    if equip.heroUuid ≠ 0 then
      match set.formation equip.heroUuid with
      | none => set.formation
      | some arr => update set.formation equip.heroUuid (some (clearAt count arr equip.placeholder))
    else set.formation

/-- `if (equip->hero_uuid != 0) remove_equip_from_hero(set, equip)`. -/
def leaveSlot : Except Fault EquipSet :=
  if equip.heroUuid ≠ 0 then set.removeEquipFromHero count equip else .ok set

def equipChangePos (bag : ℕ) (pos : ℤ) : Except Fault EquipSet := do
  let pos := if bag = 0 then 0 else pos
  if equip.heroUuid = bag ∧ equip.placeholder = pos then return set
  let set ← set.leaveSlot count equip
  let equip := { equip with placeholder := pos, heroUuid := bag }
  let set := { set with list := adjust Equip.ptr equip.ptr (fun _ => equip) set.list }
  if bag ≠ 0 then set.addEquipToHero count equip else return set

end EquipSet

abbrev EquipSets := ℕ → EquipSet

/-- `equip_trade`; `talented` tells whether the equip still has talents. -/
def equipTrade (talented : Bool) (w : EquipSets) (seller buyer : ℕ) (equip : Equip) : Int × EquipSets :=
  if talented then (-1, w)
  else if equip.pid ≠ seller then (-1, w)
  else if equip.heroUuid > 0 ∨ equip.placeholder ≠ 0 then (-1, w)
  else
    let w := update w seller { w seller with list := discard Equip.ptr equip.ptr (w seller).list }
    (0, update w buyer { w buyer with list := (w buyer).list ++ [{ equip with pid := buyer }] })

/-- A call on the equips; an equip is passed by its address and found in the player's set. -/
inductive EquipAct
  | load (pid : ℕ) (rows : List Equip)
  | add (pid ptr : ℕ)
  | changePos (pid ptr bag : ℕ) (pos : ℤ)
  | trade (talented : Bool) (seller buyer ptr : ℕ)
  | delete (pid ptr : ℕ)

def equipStep (count : ℤ) (w : EquipSets) : EquipAct → Except Fault EquipSets
  | .load pid rows => do
    let set ← EquipSet.empty.equipLoad count rows
    return update w pid set
  | .add pid ptr => return update w pid ((w pid).equipAdd pid ptr)
  | .changePos pid ptr bag pos =>
    match lookup Equip.ptr ptr (w pid).list with
    | none => return w
    | some equip => do
      let set ← (w pid).equipChangePos count equip bag pos
      return update w pid set
  | .trade talented seller buyer ptr =>
    match lookup Equip.ptr ptr (w seller).list with
    | none => return w
    | some equip => return (equipTrade talented w seller buyer equip).2
  | .delete pid ptr =>
    match lookup Equip.ptr ptr (w pid).list with
    | none => return w
    | some equip => return update w pid ((w pid).equipDelete count equip)

/-! ## What the slots should say -/

def InGroups (count placeholder : ℤ) : Prop :=
  0 ≤ placeholder ∧ placeholder < 65536 ∧ slotOf count placeholder ≠ none

def EquipSet.Right (count : ℤ) (set : EquipSet) : Prop :=
  ∀ hero placeholder p, InGroups count placeholder →
    (set.getEquipFromHero count hero placeholder = some p ↔
      ∃ e ∈ set.list, e.ptr = p ∧ e.heroUuid = hero ∧ e.placeholder = placeholder)

/-- A placeholder without bits above the group, or one of no slot at all. -/
def Proper (count placeholder : ℤ) : Prop :=
  slotOf count placeholder = none ∨ 0 ≤ placeholder ∧ placeholder < 65536

def Unused (w : EquipSets) (p : ℕ) : Prop := ∀ pid, ∀ e ∈ (w pid).list, e.ptr ≠ p

/-- Addresses are of no equip in use. The rows of a load are worn by a hero at distinct proper placeholders or not at all. The
target of a move is proper and vacated. A worn equip is deleted from the first group, or its placeholder is that of no slot
and `placeholder - 1` that of no other equip. -/
def EquipCareful (count : ℤ) (w : EquipSets) : EquipAct → Prop
  | .load pid rows => DistinctKeys Equip.ptr rows ∧ (∀ r ∈ rows, ∀ q, q ≠ pid → ∀ e ∈ (w q).list, e.ptr ≠ r.ptr) ∧
      (∀ r ∈ rows, r.placeholder = 0 ∨ r.heroUuid ≠ 0 ∧ Proper count r.placeholder) ∧
      rows.Pairwise fun r r' => r.heroUuid = r'.heroUuid → r.placeholder = r'.placeholder → r.placeholder = 0
  | .add _ ptr => Unused w ptr
  | .changePos pid ptr bag pos => bag ≠ 0 → Proper count pos ∧
      ∀ e ∈ (w pid).list, e.ptr ≠ ptr → e.heroUuid = bag → e.placeholder ≠ pos
  | .trade _ _ _ _ => True
  | .delete pid ptr => ∀ e ∈ (w pid).list, e.ptr = ptr → e.heroUuid = 0 ∨ 1 ≤ e.placeholder ∧ e.placeholder ≤ 12 ∨
      slotOf count e.placeholder = none ∧ ∀ arr, (w pid).formation e.heroUuid = some arr →
        1 ≤ e.placeholder → e.placeholder - 1 < count → arr (e.placeholder - 1).toNat = none

/-! ## Slots -/

theorem slotOf_some {count placeholder : ℤ} {i : ℕ} (h : slotOf count placeholder = some i) :
    1 ≤ placeholder % 256 ∧ placeholder % 256 ≤ 12 ∧
      (i : ℤ) + 1 = placeholder / 256 % 256 * 12 + placeholder % 256 ∧ (i : ℤ) < count := by
  unfold slotOf equipIntoBattleMax at h
  simp only at h
  split at h
  · simp at h
  · split at h
    · simp at h
    · have hi := Option.some.inj h
      omega

theorem slotOf_zero (count : ℤ) : slotOf count 0 = none := rfl

theorem slotOf_inj {count a b : ℤ} {i : ℕ} (ha : slotOf count a = some i) (hb : slotOf count b = some i)
    (ha' : 0 ≤ a ∧ a < 65536) (hb' : 0 ≤ b ∧ b < 65536) : a = b := by
  have h1 := slotOf_some ha
  have h2 := slotOf_some hb
  omega

theorem slotOf_first {count p : ℤ} {i : ℕ} (h : slotOf count p = some i) (h1 : 1 ≤ p) (h2 : p ≤ 12) :
    i = (p - 1).toNat := by
  have hs := slotOf_some h
  omega

/-! ## The invariant -/

def EquipSet.inSlot (set : EquipSet) (hero i : ℕ) : Option ℕ :=
  match set.formation hero with
  | none => none
  | some arr => arr i

structure EquipSet.Ok (count : ℤ) (set : EquipSet) : Prop where
  unique : DistinctKeys Equip.ptr set.list
  worn : ∀ e ∈ set.list, e.heroUuid = 0 → e.placeholder = 0
  proper : ∀ e ∈ set.list, Proper count e.placeholder
  index : ∀ hero i p, set.inSlot hero i = some p ↔
    ∃ e ∈ set.list, e.ptr = p ∧ e.heroUuid = hero ∧ slotOf count e.placeholder = some i

/-- The slots say where the equips are. Nothing is said about placeholders that name the same slot. -/
structure EquipSet.Indexed (count : ℤ) (set : EquipSet) : Prop where
  unique : DistinctKeys Equip.ptr set.list
  worn : ∀ e ∈ set.list, e.heroUuid = 0 → e.placeholder = 0
  index : ∀ hero i p, set.inSlot hero i = some p ↔
    ∃ e ∈ set.list, e.ptr = p ∧ e.heroUuid = hero ∧ slotOf count e.placeholder = some i

structure SetsOk (count : ℤ) (w : EquipSets) : Prop where
  sets : ∀ pid, (w pid).Ok count
  apart : ∀ p q, p ≠ q → ∀ e ∈ (w p).list, ∀ e' ∈ (w q).list, e.ptr ≠ e'.ptr

section Steps
variable {count : ℤ} {set : EquipSet}

theorem EquipSet.Ok.right (h : set.Ok count) : set.Right count := by
  intro hero placeholder p hg
  obtain ⟨h0, h1, hs⟩ := hg
  obtain ⟨i, hi⟩ := Option.ne_none_iff_exists'.mp hs
  have hget : set.getEquipFromHero count hero placeholder = set.inSlot hero i := by
    rw [EquipSet.getEquipFromHero, hi]
    rfl
  rw [hget, h.index]
  constructor
  · intro he
    obtain ⟨e, he, hp, hh, hei⟩ := he
    refine ⟨e, he, hp, hh, ?_⟩
    rcases h.proper e he with hn | hr
    · rw [hn] at hei
      simp at hei
    · exact slotOf_inj hei hi hr ⟨h0, h1⟩
  · intro he
    obtain ⟨e, he, hp, hh, hpl⟩ := he
    exact ⟨e, he, hp, hh, by rw [hpl]; exact hi⟩

theorem EquipSet.Ok.indexed (h : set.Ok count) : set.Indexed count := ⟨h.unique, h.worn, h.index⟩

theorem EquipSet.Indexed.alone (h : set.Indexed count) {e e' : Equip} (he : e ∈ set.list) (he' : e' ∈ set.list) {i : ℕ}
    (hh : e.heroUuid = e'.heroUuid) (hi : slotOf count e.placeholder = some i)
    (hi' : slotOf count e'.placeholder = some i) : e.ptr = e'.ptr := by
  have h1 := (h.index e.heroUuid i e.ptr).mpr ⟨e, he, rfl, rfl, hi⟩
  have h2 := (h.index e.heroUuid i e'.ptr).mpr ⟨e', he', rfl, hh.symm, hi'⟩
  exact some_unique h1 h2

theorem inSlot_update (formation : ℕ → Option (ℕ → Option ℕ)) (list : List Equip) (hero : ℕ) (arr : ℕ → Option ℕ)
    (hero' i : ℕ) :
    EquipSet.inSlot ⟨list, update formation hero (some arr)⟩ hero' i =
      if hero' = hero then arr i else EquipSet.inSlot ⟨list, formation⟩ hero' i := by
  unfold EquipSet.inSlot
  by_cases hh : hero' = hero
  · subst hh
    simp only [update_self, if_true]
  · simp only [update_of_ne hh, hh, if_false]

theorem addEquipToHero_ok {e : Equip}
    (hfree : ∀ i, slotOf count e.placeholder = some i → set.inSlot e.heroUuid i = none) :
    ∃ set', set.addEquipToHero count e = .ok set' ∧ set'.list = set.list ∧ ∀ hero i, set'.inSlot hero i =
      if hero = e.heroUuid ∧ slotOf count e.placeholder = some i then some e.ptr else set.inSlot hero i := by
  unfold EquipSet.addEquipToHero
  cases hs : slotOf count e.placeholder with
  | none =>
    refine ⟨set, rfl, rfl, fun hero i => ?_⟩
    rw [if_neg (by simp)]
  | some i =>
    have hget : ∀ j, (set.formation e.heroUuid).getD (fun _ => none) j = set.inSlot e.heroUuid j := by
      intro j
      unfold EquipSet.inSlot
      cases set.formation e.heroUuid with
      | none => rfl
      | some arr => rfl
    have hnone : ((set.formation e.heroUuid).getD fun _ => none) i = none := by rw [hget i, hfree i hs]
    refine ⟨⟨set.list, update set.formation e.heroUuid
      (some (update ((set.formation e.heroUuid).getD fun _ => none) i (some e.ptr)))⟩, ?_, rfl, fun hero j => ?_⟩
    · simp only [hnone, Option.isNone_none, assert_true, ok_bind, pure_eq_ok]
    · rw [inSlot_update]
      by_cases hh : hero = e.heroUuid
      · subst hh
        by_cases hj : i = j
        · subst hj
          simp
        · have hj' : ¬ some i = some j := fun hc => hj (Option.some.inj hc)
          simp only [if_true, true_and, hj', if_false, update_of_ne (Ne.symm hj), hget]
      · simp only [hh, if_false, false_and]

theorem removeEquipFromHero_ok (h : set.Indexed count) {e : Equip} (he : e ∈ set.list) :
    ∃ set', set.removeEquipFromHero count e = .ok set' ∧ set'.list = set.list ∧ ∀ hero i, set'.inSlot hero i =
      if hero = e.heroUuid ∧ slotOf count e.placeholder = some i then none else set.inSlot hero i := by
  unfold EquipSet.removeEquipFromHero
  cases hs : slotOf count e.placeholder with
  | none =>
    refine ⟨set, rfl, rfl, fun hero i => ?_⟩
    rw [if_neg (by simp)]
  | some i =>
    have hin := (h.index e.heroUuid i e.ptr).mpr ⟨e, he, rfl, rfl, hs⟩
    unfold EquipSet.inSlot at hin
    cases ha : set.formation e.heroUuid with
    | none =>
      rw [ha] at hin
      simp at hin
    | some arr =>
      rw [ha] at hin
      simp only at hin
      refine ⟨⟨set.list, update set.formation e.heroUuid (some (update arr i none))⟩, ?_, rfl,
        fun hero j => ?_⟩
      · simp only [hin, decide_true, assert_true, ok_bind, pure_eq_ok]
      · rw [inSlot_update]
        by_cases hh : hero = e.heroUuid
        · subst hh
          by_cases hj : i = j
          · subst hj
            simp
          · have hj' : ¬ some i = some j := fun hc => hj (Option.some.inj hc)
            simp only [if_true, true_and, hj', if_false, update_of_ne (Ne.symm hj)]
            unfold EquipSet.inSlot
            rw [ha]
        · simp only [hh, if_false, false_and]

theorem EquipSet.Ok.append (h : set.Ok count) {e : Equip} (hnew : ∀ b ∈ set.list, b.ptr ≠ e.ptr)
    (hworn : e.heroUuid = 0 → e.placeholder = 0) (hproper : Proper count e.placeholder)
    (hfree : ∀ i, slotOf count e.placeholder = some i → set.inSlot e.heroUuid i = none) {set' : EquipSet}
    (hl : set'.list = set.list ++ [e]) (hs : ∀ hero i, set'.inSlot hero i =
      if hero = e.heroUuid ∧ slotOf count e.placeholder = some i then some e.ptr else set.inSlot hero i) :
    set'.Ok count := by
  have hmem : ∀ b, b ∈ set'.list ↔ b ∈ set.list ∨ b = e := by
    intro b
    rw [hl, mem_append, mem_singleton]
  refine ⟨?_, ?_, ?_, ?_⟩
  · rw [hl]
    exact h.unique.snoc (lookup_none.mpr hnew)
  · intro b hb
    rcases (hmem b).mp hb with hb | rfl
    · exact h.worn b hb
    · exact hworn
  · intro b hb
    rcases (hmem b).mp hb with hb | rfl
    · exact h.proper b hb
    · exact hproper
  · intro hero i p
    rw [hs]
    split
    · next hin =>
      constructor
      · intro hp
        exact ⟨e, (hmem e).mpr (.inr rfl), Option.some.inj hp, hin.1.symm, hin.2⟩
      · intro hb
        obtain ⟨b, hb, hp, hh, hi⟩ := hb
        rcases (hmem b).mp hb with hb | rfl
        · -- the slot was free
          have hsome := (h.index hero i p).mpr ⟨b, hb, hp, hh, hi⟩
          rw [hin.1, hfree i hin.2] at hsome
          simp at hsome
        · rw [hp]
    · next hout =>
      rw [h.index]
      constructor
      · intro hb
        obtain ⟨b, hb, hrest⟩ := hb
        exact ⟨b, (hmem b).mpr (.inl hb), hrest⟩
      · intro hb
        obtain ⟨b, hb, hp, hh, hi⟩ := hb
        rcases (hmem b).mp hb with hb | rfl
        · exact ⟨b, hb, hp, hh, hi⟩
        · exact absurd ⟨hh.symm, hi⟩ hout

theorem EquipSet.Ok.takeOut (h : set.Ok count) {e : Equip} (he : e ∈ set.list) {set' : EquipSet}
    (hl : set'.list = discard Equip.ptr e.ptr set.list) (hs : ∀ hero i, set'.inSlot hero i =
      if hero = e.heroUuid ∧ slotOf count e.placeholder = some i then none else set.inSlot hero i) :
    set'.Ok count := by
  have hmem : ∀ b, b ∈ set'.list ↔ b ∈ set.list ∧ b.ptr ≠ e.ptr := by
    intro b
    rw [hl, mem_discard]
  refine ⟨?_, fun b hb => h.worn b ((hmem b).mp hb).1, fun b hb => h.proper b ((hmem b).mp hb).1, ?_⟩
  · rw [hl]
    exact h.unique.discard e.ptr
  · intro hero i p
    rw [hs]
    split
    · next hin =>
      constructor
      · intro hp
        simp at hp
      · intro hb
        obtain ⟨b, hb, -, hh, hi⟩ := hb
        exact absurd (h.indexed.alone ((hmem b).mp hb).1 he (hh.trans hin.1) hi hin.2) ((hmem b).mp hb).2
    · next hout =>
      rw [h.index]
      constructor
      · intro hb
        obtain ⟨b, hb, hp, hh, hi⟩ := hb
        refine ⟨b, (hmem b).mpr ⟨hb, ?_⟩, hp, hh, hi⟩
        intro hptr
        have hbe : b = e := inj_on_of_nodup_map h.unique hb he hptr
        rw [hbe] at hh hi
        exact hout ⟨hh.symm, hi⟩
      · intro hb
        obtain ⟨b, hb, hrest⟩ := hb
        exact ⟨b, ((hmem b).mp hb).1, hrest⟩

theorem inSlot_of_none {e : Equip} (hn : slotOf count e.placeholder = none) (x : Option ℕ) (hero i : ℕ) :
    set.inSlot hero i = if hero = e.heroUuid ∧ slotOf count e.placeholder = some i then x else set.inSlot hero i := by
  rw [hn, if_neg (by simp)]

theorem equipDelete_ok (h : set.Ok count) {e : Equip} (he : e ∈ set.list)
    (hc : e.heroUuid = 0 ∨ 1 ≤ e.placeholder ∧ e.placeholder ≤ 12 ∨
      slotOf count e.placeholder = none ∧ ∀ arr, set.formation e.heroUuid = some arr →
        1 ≤ e.placeholder → e.placeholder - 1 < count → arr (e.placeholder - 1).toNat = none) :
    (set.equipDelete count e).Ok count := by
  apply h.takeOut he rfl
  intro hero i
  by_cases h0 : e.heroUuid = 0
  · have hs : slotOf count e.placeholder = none := by rw [h.worn e he h0]; exact slotOf_zero count
    rw [hs, if_neg (by simp)]
    unfold EquipSet.inSlot EquipSet.equipDelete
    simp only [h0, ne_eq, not_true_eq_false, if_false]
  · cases ha : set.formation e.heroUuid with
    | none =>
      have hkeep : (set.equipDelete count e).inSlot hero i = set.inSlot hero i := by
        unfold EquipSet.inSlot EquipSet.equipDelete
        simp only [h0, ne_eq, not_false_eq_true, if_true, ha]
      rw [hkeep]
      split
      · next hin =>
        rw [hin.1, EquipSet.inSlot, ha]
      · rfl
    | some arr =>
      have hslot : (set.equipDelete count e).inSlot hero i =
          if hero = e.heroUuid then EquipSet.clearAt count arr e.placeholder i else set.inSlot hero i := by
        have hu := inSlot_update set.formation (discard Equip.ptr e.ptr set.list) e.heroUuid
          (EquipSet.clearAt count arr e.placeholder) hero i
        unfold EquipSet.equipDelete
        simp only [h0, ne_eq, not_false_eq_true, if_true, ha]
        exact hu
      rw [hslot]
      by_cases hh : hero = e.heroUuid
      · subst hh
        have harr : set.inSlot e.heroUuid i = arr i := by rw [EquipSet.inSlot, ha]
        simp only [if_true, true_and, harr]
        unfold EquipSet.clearAt
        rcases hc.resolve_left h0 with ⟨h1, h12⟩ | ⟨hn, hcell⟩
        · by_cases hs : slotOf count e.placeholder = some i
          · have hi := slotOf_first hs h1 h12
            have hlt := (slotOf_some hs).2.2.2
            rw [if_pos hs, if_pos ⟨h1, by omega⟩, hi, update_self]
          · rw [if_neg hs]
            split
            · next hr =>
              apply update_of_ne
              intro hi
              apply hs
              -- a placeholder of the first group with room for it has its slot
              unfold slotOf equipIntoBattleMax
              simp only
              rw [if_neg (by omega), if_neg (by omega), hi]
              congr 1
              omega
            · rfl
        · have hno : ¬ slotOf count e.placeholder = some i := by simp [hn]
          rw [if_neg hno]
          split
          · next hr =>
            by_cases hi : i = (e.placeholder - 1).toNat
            · rw [hi, update_self, hcell arr ha hr.1 hr.2]
            · exact update_of_ne hi _ _
          · rfl
      · simp only [hh, if_false, false_and]

theorem EquipSet.Indexed.move (h : set.Indexed count) {e e' : Equip} (he : e ∈ set.list) (hptr : e'.ptr = e.ptr)
    (hworn : e'.heroUuid = 0 → e'.placeholder = 0)
    (hfree : ∀ b ∈ set.list, b.ptr ≠ e.ptr → b.heroUuid = e'.heroUuid → ∀ i, slotOf count e'.placeholder = some i →
      slotOf count b.placeholder ≠ some i) {set' : EquipSet}
    (hl : set'.list = adjust Equip.ptr e.ptr (fun _ => e') set.list) (hs : ∀ hero i, set'.inSlot hero i =
      if hero = e'.heroUuid ∧ slotOf count e'.placeholder = some i then some e.ptr
      else if hero = e.heroUuid ∧ slotOf count e.placeholder = some i then none else set.inSlot hero i) :
    set'.Indexed count := by
  have hlook : lookup Equip.ptr e.ptr set.list = some e := lookup_of_mem h.unique he
  have hmem : ∀ b, b ∈ set'.list ↔ b = e' ∨ b ∈ set.list ∧ b.ptr ≠ e.ptr := by
    intro b
    rw [hl, mem_adjust h.unique hlook]
  have hsame : ∀ b ∈ set.list, b.ptr = e.ptr → b = e := fun b hb hp => inj_on_of_nodup_map h.unique hb he hp
  refine ⟨?_, ?_, ?_⟩
  · rw [hl, DistinctKeys, adjust, map_map]
    have hkeys : set.list.map (Equip.ptr ∘ fun a => if a.ptr = e.ptr then e' else a) = set.list.map Equip.ptr := by
      apply map_congr_left
      intro a _
      simp only [comp_apply]
      split
      · next ha => rw [hptr, ha]
      · rfl
    rw [hkeys]
    exact h.unique
  · intro b hb
    rcases (hmem b).mp hb with rfl | ⟨hb, -⟩
    · exact hworn
    · exact h.worn b hb
  · intro hero i p
    rw [hs]
    split
    · next hin =>
      constructor
      · intro hp
        exact ⟨e', (hmem e').mpr (.inl rfl), hptr.trans (Option.some.inj hp), hin.1.symm, hin.2⟩
      · intro hb
        obtain ⟨b, hb, hp, hh, hi⟩ := hb
        rcases (hmem b).mp hb with rfl | ⟨hb, hne⟩
        · rw [← hp, hptr]
        · exact absurd hi (hfree b hb hne (hh.trans hin.1) i hin.2)
    · next hout =>
      split
      · next hin =>
        -- the slot the equip has left is empty
        constructor
        · intro hp
          simp at hp
        · intro hb
          obtain ⟨b, hb, hp, hh, hi⟩ := hb
          rcases (hmem b).mp hb with rfl | ⟨hb, hne⟩
          · exact absurd ⟨hh.symm, hi⟩ hout
          · exact absurd (h.alone hb he (hh.trans hin.1) hi hin.2) hne
      · next hold =>
        rw [h.index]
        constructor
        · intro hb
          obtain ⟨b, hb, hp, hh, hi⟩ := hb
          refine ⟨b, (hmem b).mpr (.inr ⟨hb, ?_⟩), hp, hh, hi⟩
          intro hbp
          rw [hsame b hb hbp] at hh hi
          exact hold ⟨hh.symm, hi⟩
        · intro hb
          obtain ⟨b, hb, hp, hh, hi⟩ := hb
          rcases (hmem b).mp hb with rfl | ⟨hb, -⟩
          · exact absurd ⟨hh.symm, hi⟩ hout
          · exact ⟨b, hb, hp, hh, hi⟩

def Equip.placed (e : Equip) (bag : ℕ) (pos : ℤ) : Equip :=
  { e with placeholder := if bag = 0 then 0 else pos, heroUuid := bag }

theorem EquipSet.Indexed.changePos (h : set.Indexed count) {e : Equip} (he : e ∈ set.list) {bag : ℕ} {pos : ℤ}
    (hfree : bag ≠ 0 → ∀ b ∈ set.list, b.ptr ≠ e.ptr → b.heroUuid = bag → ∀ i, slotOf count pos = some i →
      slotOf count b.placeholder ≠ some i) :
    ∃ set', set.equipChangePos count e bag pos = .ok set' ∧ set'.Indexed count ∧
      set'.list = adjust Equip.ptr e.ptr (fun _ => e.placed bag pos) set.list := by
  unfold EquipSet.equipChangePos
  simp only
  by_cases hsame : e.heroUuid = bag ∧ e.placeholder = if bag = 0 then 0 else pos
  · rw [if_pos hsame]
    have hplaced : e.placed bag pos = e := by
      obtain ⟨hh, hp⟩ := hsame
      unfold Equip.placed
      rw [← hp, ← hh]
    refine ⟨set, rfl, h, ?_⟩
    rw [hplaced]
    exact (adjust_self h.unique he).symm
  · rw [if_neg hsame]
    -- out of the old slot; an equip no hero wears has none
    obtain ⟨s₁, hs₁, hl₁, hi₁⟩ : ∃ s₁, set.leaveSlot count e = .ok s₁ ∧
        s₁.list = set.list ∧ ∀ hero i, s₁.inSlot hero i =
          if hero = e.heroUuid ∧ slotOf count e.placeholder = some i then none else set.inSlot hero i := by
      unfold EquipSet.leaveSlot
      by_cases h0 : e.heroUuid = 0
      · have hn : slotOf count e.placeholder = none := by rw [h.worn e he h0]; exact slotOf_zero count
        exact ⟨set, if_neg (fun hne => hne h0), rfl, fun hero i => inSlot_of_none hn none hero i⟩
      · rw [if_pos h0]
        exact removeEquipFromHero_ok h he
    simp only [hs₁, ok_bind]
    by_cases hbag : bag = 0
    · subst hbag
      refine ⟨_, if_neg (fun hne => hne rfl), ?_, ?_⟩
      · have hm := @EquipSet.Indexed.move count set h e (e.placed 0 pos) he rfl (fun _ => rfl)
          (fun b _ _ _ i hi => by simp [Equip.placed, slotOf_zero] at hi)
        apply hm
        · simp only [hl₁, if_true]
          rfl
        · intro hero i
          have hz : slotOf count (e.placed 0 pos).placeholder = none := slotOf_zero count
          simp only [hz, reduceCtorEq, and_false, if_false]
          exact hi₁ hero i
      · simp only [hl₁, if_true]
        rfl
    · simp only [hbag, if_false, ne_eq, not_false_eq_true, if_true]
      have hplaced : e.placed bag pos = { e with placeholder := pos, heroUuid := bag } := by
        unfold Equip.placed
        rw [if_neg hbag]
      rw [hplaced]
      let e' : Equip := { e with placeholder := pos, heroUuid := bag }
      let s₂ : EquipSet := { s₁ with list := adjust Equip.ptr e.ptr (fun _ => e') s₁.list }
      have hs₂ : ∀ hero i, s₂.inSlot hero i = s₁.inSlot hero i := fun _ _ => rfl
      obtain ⟨s₃, hs₃, hl₃, hi₃⟩ := @addEquipToHero_ok count s₂ e' (by
        intro i hi
        rw [hs₂, hi₁]
        split
        · rfl
        · next hold =>
          -- whoever held the slot would be another equip at the target
          cases hp : set.inSlot bag i with
          | none => rfl
          | some p =>
            obtain ⟨b, hb, -, hh, hbi⟩ := (h.index bag i p).mp hp
            by_cases hbe : b.ptr = e.ptr
            · have heq : b = e := inj_on_of_nodup_map h.unique hb he hbe
              rw [heq] at hh hbi
              exact absurd ⟨hh.symm, hbi⟩ hold
            · exact absurd hbi (hfree hbag b hb hbe hh i hi))
      refine ⟨s₃, hs₃, ?_, ?_⟩
      · apply @EquipSet.Indexed.move count set h e e' he rfl (fun h0 => absurd h0 hbag) (hfree hbag) s₃
        · rw [hl₃]
          simp only [s₂, hl₁]
        · intro hero i
          rw [hi₃, hs₂, hi₁]
      · rw [hl₃]
        simp only [s₂, hl₁, e']

theorem equipChangePos_ok (h : set.Ok count) {e : Equip} (he : e ∈ set.list) {bag : ℕ} {pos : ℤ}
    (hc : bag ≠ 0 → Proper count pos ∧ ∀ b ∈ set.list, b.ptr ≠ e.ptr → b.heroUuid = bag → b.placeholder ≠ pos) :
    ∃ set', set.equipChangePos count e bag pos = .ok set' ∧ set'.Ok count ∧
      ∀ b ∈ set'.list, ∃ b₀ ∈ set.list, b.ptr = b₀.ptr := by
  obtain ⟨set', hs, hindexed, hl⟩ := @EquipSet.Indexed.changePos count set h.indexed e he bag pos (by
    intro hbag b hb hne hh i hi hi'
    obtain ⟨hproper, hvac⟩ := hc hbag
    have hr : 0 ≤ pos ∧ pos < 65536 := hproper.resolve_left (by rw [hi]; simp)
    have hr' : 0 ≤ b.placeholder ∧ b.placeholder < 65536 := (h.proper b hb).resolve_left (by rw [hi']; simp)
    exact hvac b hb hne hh (slotOf_inj hi' hi hr' hr))
  have hmem : ∀ b, b ∈ set'.list ↔ b = e.placed bag pos ∨ b ∈ set.list ∧ b.ptr ≠ e.ptr := by
    intro b
    rw [hl, mem_adjust h.unique (lookup_of_mem h.unique he)]
  refine ⟨set', hs, ⟨hindexed.unique, hindexed.worn, ?_, hindexed.index⟩, ?_⟩
  · intro b hb
    cases (hmem b).mp hb with
    | inl heq =>
      subst heq
      by_cases hbag : bag = 0
      · subst hbag
        exact .inl (slotOf_zero count)
      · have hplace : (e.placed bag pos).placeholder = pos := if_neg hbag
        rw [hplace]
        exact (hc hbag).1
    | inr hb => exact h.proper b hb.1
  · intro b hb
    cases (hmem b).mp hb with
    | inl heq => exact ⟨e, he, by rw [heq]; rfl⟩
    | inr hb => exact ⟨b, hb.1, rfl⟩

structure Loads (count : ℤ) (list : List Equip) (r : Equip) : Prop where
  fresh : ∀ b ∈ list, b.ptr ≠ r.ptr
  worn : r.placeholder = 0 ∨ r.heroUuid ≠ 0 ∧ Proper count r.placeholder
  vacant : ∀ b ∈ list, b.heroUuid = r.heroUuid → b.placeholder = r.placeholder → r.placeholder = 0

theorem loadRow_ok (h : set.Ok count) {r : Equip} (hr : Loads count set.list r) :
    ∃ set' cur, set.loadRow count r = .ok set' ∧ set'.Ok count ∧ set'.list = set.list ++ [cur] ∧
      cur.ptr = r.ptr ∧ cur.placeholder = r.placeholder ∧ (r.placeholder ≠ 0 → cur = r) := by
  let cur : Equip := if r.placeholder = 0 then { r with heroUuid := 0 } else r
  have hcur : cur.ptr = r.ptr ∧ cur.placeholder = r.placeholder ∧ (r.placeholder ≠ 0 → cur = r) := by
    simp only [cur]
    split
    · next h0 => exact ⟨rfl, rfl, fun hne => absurd h0 hne⟩
    · exact ⟨rfl, rfl, fun _ => rfl⟩
  have hproper : Proper count cur.placeholder := by
    rw [hcur.2.1]
    rcases hr.worn with h0 | hw
    · exact .inl (by rw [h0]; exact slotOf_zero count)
    · exact hw.2
  have hslot : ∀ i, slotOf count cur.placeholder = some i → set.inSlot cur.heroUuid i = none := by
    intro i hi
    have hne : r.placeholder ≠ 0 := by
      intro h0
      rw [hcur.2.1, h0, slotOf_zero] at hi
      simp at hi
    rw [hcur.2.2 hne] at hi ⊢
    cases hp : set.inSlot r.heroUuid i with
    | none => rfl
    | some p =>
      obtain ⟨b, hb, -, hh, hbi⟩ := (h.index _ i p).mp hp
      have hb' : 0 ≤ b.placeholder ∧ b.placeholder < 65536 := (h.proper b hb).resolve_left (by rw [hbi]; simp)
      rw [hcur.2.2 hne] at hproper
      have hr' : 0 ≤ r.placeholder ∧ r.placeholder < 65536 := hproper.resolve_left (by rw [hi]; simp)
      exact absurd (hr.vacant b hb hh (slotOf_inj hbi hi hb' hr')) hne
  obtain ⟨set', hs, hl, hi⟩ := @addEquipToHero_ok count { set with list := set.list ++ [cur] } cur hslot
  refine ⟨set', cur, hs, ?_, hl, hcur⟩
  apply h.append (e := cur) _ _ hproper hslot hl hi
  · rw [hcur.1]
    exact hr.fresh
  · intro h0
    rw [hcur.2.1]
    by_contra hne
    rw [hcur.2.2 hne] at h0
    exact (hr.worn.resolve_left hne).1 h0

theorem equipLoad_ok (rows : List Equip) : ∀ set : EquipSet, set.Ok count → DistinctKeys Equip.ptr rows →
    rows.Pairwise (fun r r' => r.heroUuid = r'.heroUuid → r.placeholder = r'.placeholder → r.placeholder = 0) →
    (∀ r ∈ rows, Loads count set.list r) →
    ∃ set', set.equipLoad count rows = .ok set' ∧ set'.Ok count ∧
      ∀ b ∈ set'.list, b ∈ set.list ∨ ∃ r ∈ rows, b.ptr = r.ptr := by
  induction rows with
  | nil =>
    intro set h _ _ _
    exact ⟨set, rfl, h, fun b hb => .inl hb⟩
  | cons r rows ih =>
    intro set h hu hpair hloads
    obtain ⟨s₁, cur, hs₁, hok₁, hl₁, hptr, hpl, hcur⟩ := loadRow_ok h (hloads r mem_cons_self)
    obtain ⟨hr, hpair'⟩ := pairwise_cons.mp hpair
    have hu' := nodup_cons.mp hu
    have hnext : ∀ r' ∈ rows, Loads count s₁.list r' := by
      intro r' hr'
      obtain ⟨hf, hw, hv⟩ := hloads r' (mem_cons_of_mem r hr')
      refine ⟨?_, hw, ?_⟩
      · intro b hb
        rw [hl₁] at hb
        rcases mem_append.mp hb with hb | hb
        · exact hf b hb
        · rw [mem_singleton.mp hb, hptr]
          intro he
          exact hu'.1 (mem_map.mpr ⟨r', hr', he.symm⟩)
      · intro b hb hh hp
        rw [hl₁] at hb
        rcases mem_append.mp hb with hb | hb
        · exact hv b hb hh hp
        · rw [mem_singleton.mp hb] at hh hp
          by_cases h0 : r.placeholder = 0
          · rw [← hp, hpl, h0]
          · rw [hcur h0] at hh hp
            exact absurd (hr r' hr' hh hp) h0
    obtain ⟨s₂, hs₂, hok₂, hmem₂⟩ := ih s₁ hok₁ hu'.2 hpair' hnext
    refine ⟨s₂, ?_, hok₂, ?_⟩
    · rw [EquipSet.equipLoad, hs₁]
      exact hs₂
    · intro b hb
      rcases hmem₂ b hb with hb | ⟨r', hr', hp⟩
      · rw [hl₁] at hb
        rcases mem_append.mp hb with hb | hb
        · exact .inl hb
        · rw [mem_singleton.mp hb]
          exact .inr ⟨r, mem_cons_self, hptr⟩
      · exact .inr ⟨r', mem_cons_of_mem r hr', hp⟩

theorem empty_ok : EquipSet.empty.Ok count where
  unique := nodup_nil
  worn := fun e he => absurd he not_mem_nil
  proper := fun e he => absurd he not_mem_nil
  index := by
    intro hero i p
    constructor
    · intro h
      simp [EquipSet.inSlot, EquipSet.empty] at h
    · intro h
      obtain ⟨e, he, -⟩ := h
      exact absurd he not_mem_nil

/-! ## All players -/

variable {w : EquipSets}

theorem SetsOk.update (h : SetsOk count w) (pid : ℕ) {set : EquipSet} (hok : set.Ok count)
    (hap : ∀ q, q ≠ pid → ∀ e ∈ set.list, ∀ e' ∈ (w q).list, e.ptr ≠ e'.ptr) :
    SetsOk count (update w pid set) where
  sets := by
    intro q
    by_cases hq : q = pid
    · subst hq
      rw [update_self]
      exact hok
    · rw [update_of_ne hq]
      exact h.sets q
  apart := by
    intro q r hqr e he e' he'
    by_cases hq : q = pid
    · subst hq
      rw [update_self] at he
      rw [update_of_ne (Ne.symm hqr)] at he'
      exact hap r (Ne.symm hqr) e he e' he'
    · rw [update_of_ne hq] at he
      by_cases hr : r = pid
      · subst hr
        rw [update_self] at he'
        exact (hap q hq e' he' e he).symm
      · rw [update_of_ne hr] at he'
        exact h.apart q r hqr e he e' he'

theorem trade_ok (h : SetsOk count w) (talented : Bool) (seller buyer : ℕ) {e : Equip} (he : e ∈ (w seller).list) :
    SetsOk count (equipTrade talented w seller buyer e).2 := by
  unfold equipTrade
  split
  · exact h
  · split
    · exact h
    · split
      · exact h
      · next hw =>
        have hhero : e.heroUuid = 0 := by omega
        have hpl : e.placeholder = 0 := by
          by_contra hne
          exact hw (.inr hne)
        have hn : slotOf count e.placeholder = none := by rw [hpl]; exact slotOf_zero count
        let s₁ : EquipSet := { w seller with list := discard Equip.ptr e.ptr (w seller).list }
        have hok₁ : s₁.Ok count := (h.sets seller).takeOut he rfl fun hero i => inSlot_of_none hn none hero i
        let w₁ : EquipSets := update w seller s₁
        have hw₁ : SetsOk count w₁ := by
          apply h.update seller hok₁
          intro q hq b hb b' hb'
          exact h.apart seller q (Ne.symm hq) b (mem_discard.mp hb).1 b' hb'
        -- nobody has the equip now
        have hnone : ∀ q, ∀ b ∈ (w₁ q).list, b.ptr ≠ e.ptr := by
          intro q b hb
          by_cases hq : q = seller
          · subst hq
            simp only [w₁, update_self] at hb
            exact (mem_discard.mp hb).2
          · simp only [w₁, update_of_ne hq] at hb
            exact h.apart q seller hq b hb e he
        apply hw₁.update buyer
        · exact (hw₁.sets buyer).append (e := { e with pid := buyer }) (hnone buyer) (fun _ => hpl) (.inl hn)
            (fun i hi => by rw [hn] at hi; simp at hi) rfl (fun hero i => by rw [hn, if_neg (by simp)]; rfl)
        · intro q hq b hb b' hb'
          rcases mem_append.mp hb with hb | hb
          · exact hw₁.apart buyer q (Ne.symm hq) b hb b' hb'
          · rw [mem_singleton.mp hb]
            exact (hnone q b' hb').symm

theorem equipStep_ok (a : EquipAct) (h : SetsOk count w) (hc : EquipCareful count w a) :
    ∃ w', equipStep count w a = .ok w' ∧ SetsOk count w' := by
  cases a with
  | load pid rows =>
    obtain ⟨hu, hf, hworn, hpair⟩ := hc
    obtain ⟨set, hs, hok, hmem⟩ := equipLoad_ok rows EquipSet.empty empty_ok hu hpair fun r hr =>
      ⟨fun b hb => absurd hb not_mem_nil, hworn r hr, fun b hb => absurd hb not_mem_nil⟩
    refine ⟨_, by simp only [equipStep, hs, ok_bind, pure_eq_ok], h.update pid hok ?_⟩
    intro q hq b hb b' hb' he
    rcases hmem b hb with hb | ⟨r, hr, hp⟩
    · exact absurd hb not_mem_nil
    · exact hf r hr q hq b' hb' (he.symm.trans hp)
  | add pid ptr =>
    refine ⟨_, rfl, h.update pid ?_ ?_⟩
    · exact (h.sets pid).append (e := ⟨ptr, pid, 0, 0⟩) (hc pid) (fun _ => rfl) (.inl (slotOf_zero count))
        (fun i hi => by rw [slotOf_zero] at hi; simp at hi) rfl (fun hero i => by rw [slotOf_zero, if_neg (by simp)]; rfl)
    · intro q hq b hb b' hb'
      rcases mem_append.mp hb with hb | hb
      · exact h.apart pid q (Ne.symm hq) b hb b' hb'
      · rw [mem_singleton.mp hb]
        exact (hc q b' hb').symm
  | changePos pid ptr bag pos =>
    cases hl : lookup Equip.ptr ptr (w pid).list with
    | none => exact ⟨w, by simp only [equipStep, hl, pure_eq_ok], h⟩
    | some e =>
      obtain ⟨he, rfl⟩ := lookup_some hl
      obtain ⟨set, hs, hok, hmem⟩ := equipChangePos_ok (h.sets pid) he hc
      refine ⟨_, by simp only [equipStep, hl, hs, ok_bind, pure_eq_ok], h.update pid hok ?_⟩
      intro q hq b hb b' hb'
      obtain ⟨b₀, hb₀, hp⟩ := hmem b hb
      rw [hp]
      exact h.apart pid q (Ne.symm hq) b₀ hb₀ b' hb'
  | trade talented seller buyer ptr =>
    cases hl : lookup Equip.ptr ptr (w seller).list with
    | none => exact ⟨w, by simp only [equipStep, hl, pure_eq_ok], h⟩
    | some e =>
      exact ⟨_, by simp only [equipStep, hl, pure_eq_ok], trade_ok h talented seller buyer (lookup_some hl).1⟩
  | delete pid ptr =>
    cases hl : lookup Equip.ptr ptr (w pid).list with
    | none => exact ⟨w, by simp only [equipStep, hl, pure_eq_ok], h⟩
    | some e =>
      obtain ⟨he, hp⟩ := lookup_some hl
      refine ⟨_, by simp only [equipStep, hl, pure_eq_ok], h.update pid (equipDelete_ok (h.sets pid) he (hc e he hp)) ?_⟩
      intro q hq b hb b' hb'
      exact h.apart pid q (Ne.symm hq) b (mem_discard.mp hb).1 b' hb'

end Steps

/-- In every careful run no assertion fails, and for every player, hero and placeholder of a configured
group the slot holds exactly the equip that is owned and worn there. -/
theorem equip_formation_right (commonCfg1 commonCfg2 : Option ℤ) (acts : List EquipAct)
    (h : Along (equipStep (equipInBattleCount commonCfg1 commonCfg2))
      (EquipCareful (equipInBattleCount commonCfg1 commonCfg2)) (fun _ => .empty) acts) :
    ∃ w, run (equipStep (equipInBattleCount commonCfg1 commonCfg2)) (fun _ => .empty) acts = .ok w ∧
      ∀ pid, (w pid).Right (equipInBattleCount commonCfg1 commonCfg2) := by
  obtain ⟨w, hrun, hok⟩ := run_ok (fun w a hw hc => equipStep_ok a hw hc) acts (fun _ => EquipSet.empty)
    ⟨fun _ => empty_ok, fun _ _ _ e he => absurd he not_mem_nil⟩ h
  exact ⟨w, hrun, fun pid => (hok.sets pid).right⟩

theorem equip_formation_right_taken_off :
    ∃ w, run (equipStep (equipInBattleCount (some 1) none)) (fun _ => .empty)
        [.add 1 100, .changePos 1 100 7 257, .changePos 1 100 0 0, .delete 1 100] = .ok w ∧
      ∀ pid, (w pid).Right (equipInBattleCount (some 1) none) := by
  apply equip_formation_right
  refine .cons (fun _ e he => absurd he not_mem_nil) rfl (.cons (fun _ => ⟨.inr (by decide), ?_⟩) rfl
    (.cons (fun h0 => absurd rfl h0) rfl (.cons ?_ rfl trivial)))
  · intro e he hne
    exact absurd (congrArg Equip.ptr (mem_singleton.mp he)) hne
  · intro e he _
    exact .inl (congrArg Equip.heroUuid (mem_singleton.mp he))

/-- Deleted while it is worn in the second group, an equip stays in its slot. -/
theorem equip_delete_dangles :
    ∃ w, run (equipStep (equipInBattleCount (some 1) none)) (fun _ => .empty)
        [.add 1 100, .changePos 1 100 7 257, .delete 1 100] = .ok w ∧
      (w 1).list.map Equip.ptr = [] ∧
      (w 1).getEquipFromHero (equipInBattleCount (some 1) none) 7 257 = some 100 ∧
      ¬ (w 1).Right (equipInBattleCount (some 1) none) := by
  refine ⟨_, rfl, by decide +kernel, by decide +kernel, ?_⟩
  intro h
  obtain ⟨e, he, -⟩ := (h 7 257 100 (by unfold InGroups; decide +kernel)).mp (by decide +kernel)
  exact absurd he not_mem_nil

end CServer.Modules
