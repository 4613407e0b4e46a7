import CServer.Logic.EquipAffix

/-! # `world/logic/aL.c`: an equip that eats another one

`aL_equip_eat` is to put the better affixes of one equip into another one, and deletes the first. For every affix of the
destination it looks for an affix of the source that is of the same property type and worth more, and that is not used
yet. It reads the number of the source affix from the index of the destination, though, and that is also the affix that it
puts in. A deleted equip is not freed before the database has been written, so an equip that eats itself is lost.

The value of an affix is a floating point formula and a parameter. The loader sets the eat group of no equip, so that as
the tables are loaded none of this is reached: every call is refused.
-/
namespace CServer.Logic
open CServer.Lib CServer.Modules Function List Option Nat

/-! ## The code -/

/-- `eatGroup` is the `eat_group` of an equip config, `affixValue` is `calc_affix_value`. -/
structure EatTables where
  affix : ℤ → Option AffixProperty
  eatGroup : ℤ → Option ℤ
  affixValue : AffixProperty → EquipAffixInfo → ℤ → ℤ

structure EatState where
  dst : ℕ → EquipAffixInfo
  srcUsed : ℕ → Bool
  merged : ℕ

variable (t : EatTables)

/-- The test of the inner loop; the number is that of `srcAffixInfo[i]`. -/
def eats (level : ℤ) (dst src : ℕ → EquipAffixInfo) (i j : ℕ) : Bool :=
  if (dst i).id = 0 then false
  else
    match t.affix (dst i).id with
    | none => false
    | some dstCfg =>
      if (src j).id = 0 then false
      else
        match t.affix (src j).id with
        | none => false
        | some srcCfg =>
          decide (srcCfg.type = dstCfg.type ∧ t.affixValue srcCfg (src i) level > t.affixValue dstCfg (dst i) level)

def eatSlot (level : ℤ) (src : ℕ → EquipAffixInfo) (st : EatState) (i : ℕ) : EatState :=
  match (List.range equipPropertyPoolMax).find? fun j => ! st.srcUsed j && eats t level st.dst src i j with
  | none => st
  | some j => ⟨update st.dst i (src i), update st.srcUsed j true, st.merged + 1⟩

def eatSlots (level : ℤ) (dst src : ℕ → EquipAffixInfo) : EatState :=
  (List.range equipPropertyPoolMax).foldl (eatSlot t level src) ⟨dst, fun _ => false, 0⟩

def affixInfo (equip : OwnedEquip) : ℕ → EquipAffixInfo := fun i => equip.affix (i + 1)

variable (set : EquipStore)

/-- The loop of `equip_update_affix`, through the address of the equip; a deleted one is no longer in the map. -/
def putAffixes (uuid : ℕ) (info : ℕ → EquipAffixInfo) : EquipStore :=
  { set with
    m := update set.m uuid ((set.m uuid).map fun equip =>
      (List.range equipPropertyPoolMax).foldl (fun e i => e.updateAffix (i + 1) (info i)) equip) }

def equipEat (dest src : ℕ) : ℤ × EquipStore :=
  match set.m dest with
  | none => (retNotExist, set)
  | some destEquip =>
    match t.eatGroup destEquip.gid with
    | none => (retError, set)
    | some destGroup =>
      match set.m src with
      | none => (retNotExist, set)
      | some srcEquip =>
        match t.eatGroup srcEquip.gid with
        | none => (retError, set)
        | some srcGroup =>
          if destGroup = 0 then (retError, set)
          else if srcGroup = 0 then (retError, set)
          else if destGroup ≠ srcGroup then (retError, set)
          else
            let st := eatSlots t destEquip.level (affixInfo destEquip) (affixInfo srcEquip)
            if st.merged = 0 then (retError, set)
            else (retSuccess, putAffixes (set.equipDelete srcEquip) dest st.dst)

/-! ## What it should do -/

structure KeyedStore extends EquipStore where
  keyed : ∀ uuid equip, m uuid = some equip → equip.uuid = uuid

def Better (level : ℤ) (a b : EquipAffixInfo) : Prop :=
  a.id ≠ 0 ∧ b.id ≠ 0 ∧ ∃ ca cb, t.affix a.id = some ca ∧ t.affix b.id = some cb ∧ cb.type = ca.type ∧
    t.affixValue ca a level < t.affixValue cb b level

/-- The affixes `info` are those of `d`, but for some that are better ones of `s`; none of these is used twice. -/
structure Merged (t : EatTables) (d s : OwnedEquip) (info : ℕ → EquipAffixInfo) : Prop where
  slots : ∃ used : ℕ → Option ℕ, (∀ i i' j, used i = some j → used i' = some j → i = i') ∧
    ∀ i < equipPropertyPoolMax, match used i with
      | none => info i = affixInfo d i
      | some j => j < equipPropertyPoolMax ∧ info i = affixInfo s j ∧
          Better t d.level (affixInfo d i) (affixInfo s j)

def withAffixes (d : OwnedEquip) (info : ℕ → EquipAffixInfo) : OwnedEquip :=
  { d with affix := fun k => if 1 ≤ k ∧ k ≤ equipPropertyPoolMax then info (k - 1) else d.affix k }

def eaten (dest src : ℕ) (d : OwnedEquip) (info : ℕ → EquipAffixInfo) : EquipStore where
  m := update (update set.m src none) dest (some (withAffixes d info))
  values := update set.values src []

/-- Better affixes have been taken and the source is gone; after an error, or if an equip was to eat itself, nothing has
changed. -/
structure EatsBetter (t : EatTables) (set : EquipStore) (dest src : ℕ) (r : ℤ × EquipStore) : Prop where
  failed : r.1 ≠ retSuccess → r.2 = set
  itself : dest = src → r.2 = set
  better : r.1 = retSuccess → dest ≠ src → ∃ d s info, set.m dest = some d ∧ set.m src = some s ∧
    Merged t d s info ∧ r.2 = eaten set dest src d info

/-! ## Which slot finds which -/

section Finds
variable (find : ℕ → ℕ → Bool) (count : ℕ)

def takenBy : ℕ → List ℕ
  | 0 => []
  | n + 1 =>
    match (List.range count).find? fun j => ! (takenBy n).contains j && find n j with
    | none => takenBy n
    | some j => j :: takenBy n

def takes (i : ℕ) : Option ℕ := (List.range count).find? fun j => ! (takenBy find count i).contains j && find i j

variable {find count}

theorem takenBy_succ (n : ℕ) : takenBy find count (n + 1) =
    match takes find count n with
    | none => takenBy find count n
    | some j => j :: takenBy find count n := rfl

theorem takenBy_nil {n : ℕ} : takenBy find count n = [] ↔ ∀ i < n, takes find count i = none := by
  induction n with
  | zero => exact ⟨fun _ i hi => absurd hi (Nat.not_lt_zero i), fun _ => rfl⟩
  | succ n ih =>
    rw [takenBy_succ]
    constructor
    · intro h i hi
      cases htakes : takes find count n with
      | none =>
        rw [htakes] at h
        obtain hlt | rfl := Nat.lt_succ_iff_lt_or_eq.mp hi
        · exact ih.mp h i hlt
        · exact htakes
      | some j =>
        rw [htakes] at h
        cases h
    · intro h
      rw [h n (lt_succ_self n)]
      exact ih.mpr fun i hi => h i (lt_succ_of_lt hi)

end Finds

section Slots
variable {t : EatTables} {level : ℤ} {dst src : ℕ → EquipAffixInfo}

/-- The loop before slot `n`: the slots that found something have the source affix of their own index. -/
structure Eating (t : EatTables) (level : ℤ) (dst src : ℕ → EquipAffixInfo) (n : ℕ) (st : EatState) : Prop where
  used : ∀ j, st.srcUsed j = (takenBy (eats t level dst src) equipPropertyPoolMax n).contains j
  merged : st.merged = (takenBy (eats t level dst src) equipPropertyPoolMax n).length
  dst : ∀ i, st.dst i =
    if i < n ∧ takes (eats t level dst src) equipPropertyPoolMax i ≠ none then src i else dst i

theorem eats_congr {dst' : ℕ → EquipAffixInfo} {i : ℕ} (h : dst' i = dst i) (j : ℕ) :
    eats t level dst' src i j = eats t level dst src i j := by
  unfold eats
  rw [h]

theorem eatSlot_eating {n : ℕ} {st : EatState} (h : Eating t level dst src n st) :
    Eating t level dst src (n + 1) (eatSlot t level src st n) := by
  have hown : st.dst n = dst n := by
    rw [h.dst, if_neg fun hn => Nat.lt_irrefl n hn.1]
  have hfind : ((List.range equipPropertyPoolMax).find? fun j => ! st.srcUsed j && eats t level st.dst src n j) =
      takes (eats t level dst src) equipPropertyPoolMax n := by
    unfold takes
    simp only [h.used, eats_congr hown]
  unfold eatSlot
  rw [hfind]
  cases htakes : takes (eats t level dst src) equipPropertyPoolMax n with
  | none =>
    refine ⟨fun j => ?_, ?_, fun i => ?_⟩
    · rw [takenBy_succ, htakes]
      exact h.used j
    · rw [takenBy_succ, htakes]
      exact h.merged
    · simp only [h.dst]
      refine if_congr ⟨fun hi => ⟨lt_succ_of_lt hi.1, hi.2⟩, fun hi => ⟨?_, hi.2⟩⟩ rfl rfl
      obtain hlt | rfl := Nat.lt_succ_iff_lt_or_eq.mp hi.1
      · exact hlt
      · exact absurd htakes hi.2
  | some j =>
    refine ⟨fun k => ?_, ?_, fun i => ?_⟩
    · rw [takenBy_succ, htakes]
      simp only [contains_cons, update_apply, ← h.used]
      by_cases hk : k = j
      · simp [hk]
      · simp [hk]
    · rw [takenBy_succ, htakes, length_cons, ← h.merged]
    · simp only [update_apply, h.dst]
      by_cases hi : i = n
      · subst hi
        rw [if_pos rfl, if_pos ⟨lt_succ_self i, by rw [htakes]; exact some_ne_none j⟩]
      · rw [if_neg hi]
        refine if_congr ⟨fun hlt => ⟨lt_succ_of_lt hlt.1, hlt.2⟩, fun hlt => ⟨?_, hlt.2⟩⟩ rfl rfl
        exact (Nat.lt_succ_iff_lt_or_eq.mp hlt.1).resolve_right hi

theorem eatSlots_found (t : EatTables) (level : ℤ) (dst src : ℕ → EquipAffixInfo) :
    Eating t level dst src equipPropertyPoolMax (eatSlots t level dst src) := by
  have hloop : ∀ n, Eating t level dst src n ((List.range n).foldl (eatSlot t level src) ⟨dst, fun _ => false, 0⟩) := by
    intro n
    induction n with
    | zero =>
      refine ⟨fun _ => rfl, rfl, fun i => ?_⟩
      exact (if_neg fun h => absurd h.1 (Nat.not_lt_zero i)).symm
    | succ n ih =>
      rw [range_succ, foldl_append]
      exact eatSlot_eating ih
  exact hloop equipPropertyPoolMax

theorem merged_zero : (eatSlots t level dst src).merged = 0 ↔
    ∀ i < equipPropertyPoolMax, takes (eats t level dst src) equipPropertyPoolMax i = none := by
  rw [(eatSlots_found t level dst src).merged, length_eq_zero_iff, takenBy_nil]

end Slots

/-! ## What becomes of the equips -/

section Write
variable {set : EquipStore} {dest src uuid : ℕ} {d s : OwnedEquip} {info : ℕ → EquipAffixInfo}

theorem updateAffixes_eq (d : OwnedEquip) (info : ℕ → EquipAffixInfo) :
    (List.range equipPropertyPoolMax).foldl (fun e i => e.updateAffix (i + 1) (info i)) d = withAffixes d info := by
  have hloop : ∀ n ≤ equipPropertyPoolMax, (List.range n).foldl (fun e i => e.updateAffix (i + 1) (info i)) d =
      { d with affix := fun k => if 1 ≤ k ∧ k ≤ n then info (k - 1) else d.affix k } := by
    intro n
    induction n with
    | zero =>
      intro _
      have hnone : ∀ k, ¬ (1 ≤ k ∧ k ≤ 0) := fun k hk => by omega
      simp only [range_zero, foldl_nil, if_neg (hnone _)]
    | succ n ih =>
      intro hn
      have hslot : 1 ≤ n + 1 ∧ n + 1 ≤ equipPropertyPool := ⟨succ_pos n, hn⟩
      rw [range_succ, foldl_append, ih (le_of_succ_le hn), foldl_cons, foldl_nil,
        OwnedEquip.updateAffix, if_pos hslot]
      congr 1
      funext k
      rw [update_apply]
      by_cases hk : k = n + 1
      · rw [if_pos hk, if_pos (by omega), hk, Nat.add_sub_cancel]
      · rw [if_neg hk]
        exact if_congr (by omega) rfl rfl
  exact hloop equipPropertyPoolMax (le_refl _)

theorem putAffixes_other (hd : set.m dest = some d) (hs : s.uuid = src) (hne : dest ≠ src) :
    putAffixes (set.equipDelete s) dest info = eaten set dest src d info := by
  have hstill : (set.equipDelete s).m dest = some d := by
    rw [EquipStore.equipDelete, hs]
    simp only [update_of_ne hne, hd]
  unfold putAffixes
  rw [hstill]
  simp only [map_some, updateAffixes_eq]
  unfold EquipStore.equipDelete eaten
  rw [hs]

theorem putAffixes_itself (hs : s.uuid = src) : (putAffixes (set.equipDelete s) src info).m src = none := by
  unfold putAffixes EquipStore.equipDelete
  simp only [hs, update_self, map_none]

theorem eaten_info {info' : ℕ → EquipAffixInfo} (h : eaten set dest src d info = eaten set dest src d info') {i : ℕ}
    (hi : i < equipPropertyPoolMax) : info i = info' i := by
  have hm := congrArg (fun set : EquipStore => (set.m dest).map fun e => e.affix (i + 1)) h
  have hslot : 1 ≤ i + 1 ∧ i + 1 ≤ equipPropertyPoolMax := ⟨succ_pos i, hi⟩
  simp only [eaten, update_self, map_some, withAffixes, if_pos hslot, Nat.add_sub_cancel] at hm
  exact some.inj hm

end Write

/-! ## When it takes the better affixes -/

def SameGroup (d s : OwnedEquip) : Prop :=
  ∃ group ≠ 0, t.eatGroup d.gid = some group ∧ t.eatGroup s.gid = some group

def finds (d s : OwnedEquip) (i : ℕ) : Option ℕ :=
  takes (eats t d.level (affixInfo d) (affixInfo s)) equipPropertyPoolMax i

def foundInfo (d s : OwnedEquip) : ℕ → EquipAffixInfo :=
  (eatSlots t d.level (affixInfo d) (affixInfo s)).dst

/-- No equip finds anything in itself; and where a slot of another one finds an affix, the source affix of its own index is
a better one, or the same. -/
def EatsRight (dest src : ℕ) : Prop :=
  ∀ d s, set.m dest = some d → set.m src = some s → SameGroup t d s → ∀ i < equipPropertyPoolMax, finds t d s i ≠ none →
    dest ≠ src ∧ (affixInfo s i = affixInfo d i ∨ Better t d.level (affixInfo d i) (affixInfo s i))

section Eat
variable {t : EatTables} {set : EquipStore} {dest src : ℕ} {d s : OwnedEquip}

theorem foundInfo_at (i : ℕ) (hi : i < equipPropertyPoolMax) :
    foundInfo t d s i = if finds t d s i ≠ none then affixInfo s i else affixInfo d i := by
  unfold foundInfo
  rw [(eatSlots_found t d.level (affixInfo d) (affixInfo s)).dst]
  exact if_congr ⟨And.right, fun h => ⟨hi, h⟩⟩ rfl rfl

theorem SameGroup.known (h : SameGroup t d s) : t.eatGroup d.gid ≠ none ∧ t.eatGroup s.gid ≠ none := by
  obtain ⟨group, -, hd, hs⟩ := h
  rw [hd, hs]
  exact ⟨nofun, nofun⟩

theorem sameGroup_iff {group group' : ℤ} (hd : t.eatGroup d.gid = some group) (hs : t.eatGroup s.gid = some group') :
    SameGroup t d s ↔ group ≠ 0 ∧ group = group' := by
  constructor
  · intro ⟨g, hne, hg, hg'⟩
    obtain rfl := some_unique hd hg
    exact ⟨hne, some_unique hg' hs⟩
  · intro ⟨hne, heq⟩
    exact ⟨group, hne, hd, heq ▸ hs⟩

theorem equipEat_present (hd : set.m dest = some d) (hs : set.m src = some s) :
    (∃ ret ≠ retSuccess, equipEat t set dest src = (ret, set) ∧
        (SameGroup t d s → ∀ i < equipPropertyPoolMax, finds t d s i = none)) ∨
      SameGroup t d s ∧ (∃ i < equipPropertyPoolMax, finds t d s i ≠ none) ∧
        equipEat t set dest src = (retSuccess, putAffixes (set.equipDelete s) dest (foundInfo t d s)) := by
  have herror : retError ≠ retSuccess := by decide
  unfold equipEat
  simp only [hd, hs]
  cases hdGroup : t.eatGroup d.gid with
  | none => exact .inl ⟨_, herror, rfl, fun h => absurd hdGroup h.known.1⟩
  | some destGroup =>
    cases hsGroup : t.eatGroup s.gid with
    | none => exact .inl ⟨_, herror, rfl, fun h => absurd hsGroup h.known.2⟩
    | some srcGroup =>
      simp only
      have hsame := sameGroup_iff hdGroup hsGroup
      by_cases hdest0 : destGroup = 0
      · rw [if_pos hdest0]
        exact .inl ⟨_, herror, rfl, fun h => absurd hdest0 (hsame.mp h).1⟩
      rw [if_neg hdest0]
      by_cases hsrc0 : srcGroup = 0
      · rw [if_pos hsrc0]
        exact .inl ⟨_, herror, rfl, fun h => absurd ((hsame.mp h).2.trans hsrc0) hdest0⟩
      rw [if_neg hsrc0]
      by_cases hgroup : destGroup = srcGroup
      · rw [if_neg (not_not.mpr hgroup)]
        have hmerged := @merged_zero t d.level (affixInfo d) (affixInfo s)
        by_cases hzero : (eatSlots t d.level (affixInfo d) (affixInfo s)).merged = 0
        · rw [if_pos hzero]
          exact .inl ⟨_, herror, rfl, fun _ => hmerged.mp hzero⟩
        · rw [if_neg hzero]
          refine .inr ⟨hsame.mpr ⟨hdest0, hgroup⟩, ?_, rfl⟩
          by_contra hnone
          refine hzero (hmerged.mpr fun i hi => ?_)
          by_contra hfound
          exact hnone ⟨i, hi, hfound⟩
      · rw [if_pos hgroup]
        exact .inl ⟨_, herror, rfl, fun h => absurd (hsame.mp h).2 hgroup⟩

theorem equipEat_cases (t : EatTables) (set : EquipStore) (dest src : ℕ) :
    (∃ ret ≠ retSuccess, equipEat t set dest src = (ret, set) ∧ ∀ d s, set.m dest = some d → set.m src = some s →
        SameGroup t d s → ∀ i < equipPropertyPoolMax, finds t d s i = none) ∨
      ∃ d s, set.m dest = some d ∧ set.m src = some s ∧ SameGroup t d s ∧
        (∃ i < equipPropertyPoolMax, finds t d s i ≠ none) ∧
        equipEat t set dest src = (retSuccess, putAffixes (set.equipDelete s) dest (foundInfo t d s)) := by
  have hmissing : retNotExist ≠ retSuccess := by decide
  cases hd : set.m dest with
  | none =>
    refine .inl ⟨_, hmissing, ?_, fun d _ hd' => nomatch hd'⟩
    rw [equipEat, hd]
  | some d =>
    cases hs : set.m src with
    | none =>
      -- The group of the equip that eats is looked up before the one that is eaten.
      cases hgroup : t.eatGroup d.gid with
      | none =>
        refine .inl ⟨retError, by decide, ?_, fun _ s _ hs' => nomatch hs'⟩
        simp only [equipEat, hd, hgroup]
      | some group =>
        refine .inl ⟨_, hmissing, ?_, fun _ s _ hs' => nomatch hs'⟩
        simp only [equipEat, hd, hgroup, hs]
    | some s =>
      obtain ⟨ret, hret, heq, hnone⟩ | hright := equipEat_present (t := t) hd hs
      · refine .inl ⟨ret, hret, heq, fun d' s' hd' hs' => ?_⟩
        rw [← some.inj hd', ← some.inj hs']
        exact hnone
      · exact .inr ⟨d, s, rfl, rfl, hright⟩

/-- What was found is better exactly if every slot that found something has a better affix at its own index, or the same. -/
theorem foundInfo_merged : Merged t d s (foundInfo t d s) ↔ ∀ i < equipPropertyPoolMax, finds t d s i ≠ none →
    affixInfo s i = affixInfo d i ∨ Better t d.level (affixInfo d i) (affixInfo s i) := by
  constructor
  · intro h i hi hfound
    obtain ⟨used, -, hused⟩ := h.slots
    have hslot := hused i hi
    rw [foundInfo_at i hi, if_pos hfound] at hslot
    cases hu : used i with
    | none =>
      rw [hu] at hslot
      exact .inl hslot
    | some j =>
      rw [hu] at hslot
      obtain ⟨-, heq, hbetter⟩ := hslot
      exact .inr (heq ▸ hbetter)
  · intro h
    classical
    refine ⟨fun i => if finds t d s i ≠ none ∧ Better t d.level (affixInfo d i) (affixInfo s i) then some i else none, ?_, ?_⟩
    · intro i i' j hi hi'
      simp only [ite_eq_iff, some.injEq, reduceCtorEq, and_false, or_false] at hi hi'
      exact hi.2.trans hi'.2.symm
    · intro i hi
      rw [foundInfo_at i hi]
      by_cases hbetter : finds t d s i ≠ none ∧ Better t d.level (affixInfo d i) (affixInfo s i)
      · simp only [if_pos hbetter, if_pos hbetter.1]
        exact ⟨hi, trivial, hbetter.2⟩
      · simp only [if_neg hbetter]
        by_cases hfound : finds t d s i ≠ none
        · rw [if_pos hfound]
          exact (h i hi hfound).resolve_right fun hb => hbetter ⟨hfound, hb⟩
        · rw [if_neg hfound]

/-- For all equips and tables: better affixes are taken, or nothing changes, exactly if no equip finds anything in itself
and every slot that finds an affix has a better one, or the same, at its own index of the source. -/
theorem equipEat_iff (t : EatTables) (set : KeyedStore) (dest src : ℕ) :
    EatsBetter t set.toEquipStore dest src (equipEat t set.toEquipStore dest src) ↔
      EatsRight t set.toEquipStore dest src := by
  obtain ⟨ret, hret, heq, hnone⟩ | ⟨d, s, hd, hs, hgroup, ⟨i, hi, hfound⟩, heq⟩ := equipEat_cases t set.toEquipStore dest src
  · rw [heq]
    constructor
    · exact fun _ d s hd hs hgroup i hi hfound => absurd (hnone d s hd hs hgroup i hi) hfound
    · exact fun _ => ⟨fun _ => rfl, fun _ => rfl, fun h => absurd h hret⟩
  · have hkeyed := set.keyed src s hs
    rw [heq]
    by_cases hne : dest = src
    · constructor
      · intro h
        have hgone := @putAffixes_itself set.toEquipStore src s (foundInfo t d s) hkeyed
        have hset := h.itself hne
        simp only at hset
        rw [← hne, hset, hne, hs] at hgone
        cases hgone
      · exact fun h => absurd hne (h d s hd hs hgroup i hi hfound).1
    · rw [putAffixes_other hd hkeyed hne]
      constructor
      · intro h d₁ s₁ hd₁ hs₁ _ j hj hfoundJ
        obtain rfl := some_unique hd hd₁
        obtain rfl := some_unique hs hs₁
        refine ⟨hne, foundInfo_merged.mp ?_ j hj hfoundJ⟩
        obtain ⟨d₂, s₂, info, hd₂, hs₂, hmerged, hset⟩ := h.better rfl hne
        obtain rfl := some_unique hd hd₂
        obtain rfl := some_unique hs hs₂
        obtain ⟨used, hinj, hused⟩ := hmerged.slots
        refine ⟨used, hinj, fun k hk => ?_⟩
        rw [eaten_info hset hk]
        exact hused k hk
      · intro h
        refine ⟨fun hfail => absurd rfl hfail, fun hsame => absurd hsame hne, fun _ _ => ⟨d, s, _, hd, hs, ?_, rfl⟩⟩
        exact foundInfo_merged.mpr fun j hj hfoundJ => (h d s hd hs hgroup j hj hfoundJ).2

end Eat

/-- The tables as `load_equip_config` leaves them, `gids` being the rows of `config_equipment1`. The config of a row is
cleared and then filled in from its columns, none of which is an eat group. -/
def loadedTables (gids : List ℤ) (affix : ℤ → Option AffixProperty) (affixValue : AffixProperty → EquipAffixInfo → ℤ → ℤ) :
    EatTables where
  affix := affix
  eatGroup := fun gid => if gid ∈ gids then some 0 else none
  affixValue := affixValue

theorem loadedTables_group (gids : List ℤ) (affix : ℤ → Option AffixProperty)
    (affixValue : AffixProperty → EquipAffixInfo → ℤ → ℤ) (d s : OwnedEquip) :
    ¬ SameGroup (loadedTables gids affix affixValue) d s := by
  rintro ⟨group, hne, hgroup, -⟩
  simp only [loadedTables] at hgroup
  split at hgroup
  · exact hne (some.inj hgroup).symm
  · cases hgroup

end CServer.Logic
