import CServer.Calc.Suit

/-! # `world/calc/calc.c`: the properties as a sum

`calc_hero_property` keeps the head that each `hero_property_add` answers, except for the equips of additional groups: what
they add to a type that is not in the list yet is lost with the head. At a slot without an equip of the main group they are
not looked at.
-/
namespace CServer.Calc
open CServer.Lib CServer.Logic List

/-! ## Contributions -/

def sumOf (cs : List Property) (type : ℤ) : BitVec 32 := if type = 0 then 0 else tallySum cs type

def occurs (cs : List Property) (type : ℤ) : Bool := cs.any fun c => decide (c.1 = type ∧ c.2 ≠ 0)

variable (t : CalcTables)

def groupShare (player : PlayerView) (i : ℕ) : List Property :=
  if (addonOf t i).2 > 0 then
    (List.range' 1 (addonOf t i).1.toNat).flatMap (calcAddon t player (addonOf t i).2 i)
  else []

def slotShare (player : PlayerView) (i : ℕ) : List Property :=
  (match player.equipAt i with
    | none => []
    | some equip => calcEquip t equip 10000) ++ groupShare t player i

def suitShare (player : PlayerView) : Except Fault (List Property) :=
  suitProperties t (calcSuit (suitCells t player) suitSlotCount)

def contributions (hero : Hero) (player : PlayerView) (suits : List Property) : List Property :=
  calcBefore t hero player ++ (List.range' 1 12).flatMap (slotShare t player) ++ suits ++
    (calcBuff t hero player ++ calcFashion t hero player)

/-- What additional groups contribute to a type at slots without an equip of the main group, and at the others as long as it
has not occurred; `seen` says that it has. -/
def unseenShare (t : CalcTables) (player : PlayerView) (type : ℤ) : Bool → List ℕ → BitVec 32
  | _, [] => 0
  | seen, i :: slots =>
    match player.equipAt i with
    | none => sumOf (groupShare t player i) type + unseenShare t player type seen slots
    | some equip =>
      let seen := seen || occurs (calcEquip t equip 10000) type
      (if seen then 0 else sumOf (groupShare t player i) type) + unseenShare t player type seen slots

/-- Each type has its initial value and all contributions to it. -/
def SumRight (hero : Hero) (player : PlayerView) (head : List Property) : Prop :=
  ∃ r suits, calcHeroProperty t hero (some player) head = .ok r ∧ suitShare t player = .ok suits ∧
    ∀ type, tallyGet r type = tallyGet head type + sumOf (contributions t hero player suits) type

/-- No suit has ten cells, and for each type what additional groups contribute to it at slots without an equip of the main
group, or before it has occurred in the list at the beginning or in what was added before, comes to 0. -/
structure SumSound (t : CalcTables) (hero : Hero) (player : PlayerView) (head : List Property) : Prop where
  suits : ∀ suit, suit ≠ 0 → cellCount (suitCells t player) suitSlotCount suit 0 < 10
  seen : ∀ type, unseenShare t player type (decide (type ∈ head.map Prod.fst) || occurs (calcBefore t hero player) type)
    (List.range' 1 12) = 0

/-! ## Adding -/

section Adding
variable {t : CalcTables} {player : PlayerView} {head cs ds : List Property} {type : ℤ} {i : ℕ}

theorem sumOf_append : sumOf (cs ++ ds) type = sumOf cs type + sumOf ds type := by
  unfold sumOf
  split
  · simp
  · exact tallySum_append

theorem addAll_eq (head cs : List Property) : addAll head cs = tallyAll head (cs.filter fun c => c.1 ≠ 0) := by
  induction cs generalizing head with
  | nil => rfl
  | cons c cs ih =>
    show addAll (heroPropertyAdd head c) cs = _
    rw [ih, heroPropertyAdd]
    by_cases h0 : c.1 = 0
    · simp [h0]
    · simp [h0, tallyAll]

theorem tallySum_types (cs : List Property) : tallySum (cs.filter fun c => c.1 ≠ 0) type = sumOf cs type := by
  unfold tallySum sumOf
  rw [filter_filter]
  by_cases h0 : type = 0
  · subst h0
    have hnone : (cs.filter fun c => decide (c.1 = 0) && decide (c.1 ≠ 0)) = [] := by
      rw [filter_eq_nil_iff]
      intro c _
      by_cases hc : c.1 = 0 <;> simp [hc]
    rw [hnone]
    rfl
  · rw [if_neg h0]
    have hsame : (cs.filter fun c => decide (c.1 = type) && decide (c.1 ≠ 0)) = cs.filter fun c => decide (c.1 = type) := by
      refine filter_congr fun c _ => ?_
      by_cases hc : c.1 = type
      · simp [hc, h0]
      · simp [hc]
    rw [hsame]
    rfl

theorem tallyGet_addAll (head cs : List Property) (type : ℤ) :
    tallyGet (addAll head cs) type = tallyGet head type + sumOf cs type := by
  rw [addAll_eq, tallyGet_all, tallySum_types]

theorem mem_addAll (h0 : type ≠ 0) :
    type ∈ (addAll head cs).map Prod.fst ↔ type ∈ head.map Prod.fst ∨ occurs cs type = true := by
  rw [addAll_eq, mem_keys_all, occurs, any_eq_true]
  refine or_congr_right ⟨?_, ?_⟩
  · rintro ⟨c, hc, htype, hvalue⟩
    exact ⟨c, mem_of_mem_filter hc, decide_eq_true ⟨htype, hvalue⟩⟩
  · rintro ⟨c, hc, hmatch⟩
    obtain ⟨htype, hvalue⟩ := of_decide_eq_true hmatch
    exact ⟨c, mem_filter.mpr ⟨hc, decide_eq_true (by rw [htype]; exact h0)⟩, htype, hvalue⟩

theorem addGroups_ok (head : List Property) :
    (addGroups t player i head).map Prod.fst = head.map Prod.fst ∧
      ∀ type, tallyGet (addGroups t player i head) type =
        tallyGet head type + if type ∈ head.map Prod.fst then sumOf (groupShare t player i) type else 0 := by
  rw [addGroups, groupShare]
  obtain ⟨count, ratio⟩ := addonOf t i
  dsimp only
  by_cases hratio : ratio > 0
  · rw [if_pos hratio, if_pos hratio]
    induction List.range' 1 count.toNat generalizing head with
    | nil => exact ⟨rfl, fun type => by simp [sumOf, tallySum]⟩
    | cons group groups ih =>
      obtain ⟨hkeys, hget⟩ := ih (tallySeen head (addAll head (calcAddon t player ratio i group)))
      rw [addAll_eq] at hkeys hget
      rw [keys_seen] at hkeys hget
      rw [foldl_cons, addAll_eq]
      refine ⟨hkeys, fun type => ?_⟩
      rw [hget, tallyGet_seen, tallySum_types, flatMap_cons, sumOf_append]
      split
      · rw [add_assoc]
      · rw [add_zero]
  · rw [if_neg hratio, if_neg hratio]
    exact ⟨rfl, fun type => by simp [sumOf, tallySum]⟩

theorem foldl_slotHead (h0 : type ≠ 0) (slots : List ℕ) (head : List Property) {seen : Bool}
    (hseen : seen = true ↔ type ∈ head.map Prod.fst) :
    tallyGet (slots.foldl (slotHead t player) head) type + unseenShare t player type seen slots =
      tallyGet head type + sumOf (slots.flatMap (slotShare t player)) type := by
  induction slots generalizing head seen with
  | nil => simp [unseenShare, sumOf, tallySum]
  | cons i slots ih =>
    rw [foldl_cons, flatMap_cons, sumOf_append, unseenShare, slotShare]
    cases hequip : player.equipAt i with
    | none =>
      have hsame : slotHead t player head i = head := by rw [slotHead, hequip]
      rw [hsame]
      dsimp only
      rw [nil_append]
      calc tallyGet (slots.foldl (slotHead t player) head) type +
            (sumOf (groupShare t player i) type + unseenShare t player type seen slots)
          = (tallyGet (slots.foldl (slotHead t player) head) type + unseenShare t player type seen slots) +
            sumOf (groupShare t player i) type := by ring
        _ = _ := by
          rw [ih head hseen]
          ring
    | some equip =>
      have hhead : slotHead t player head i = addGroups t player i (addAll head (calcEquip t equip 10000)) := by
        rw [slotHead, hequip]
      obtain ⟨hkeys, hget⟩ := @addGroups_ok t player i (addAll head (calcEquip t equip 10000))
      have hseen' : (seen || occurs (calcEquip t equip 10000) type) = true ↔
          type ∈ (addAll head (calcEquip t equip 10000)).map Prod.fst := by
        rw [mem_addAll h0, Bool.or_eq_true, hseen]
      have hrest := ih (slotHead t player head i) (by rw [hhead, hkeys]; exact hseen')
      rw [hhead, hget, tallyGet_addAll] at hrest
      rw [hhead]
      dsimp only
      rw [sumOf_append]
      by_cases hin : type ∈ (addAll head (calcEquip t equip 10000)).map Prod.fst
      · rw [if_pos hin] at hrest
        rw [if_pos (hseen'.mpr hin), zero_add, hrest]
        ring
      · rw [if_neg hin, add_zero] at hrest
        rw [if_neg (mt hseen'.mp hin)]
        calc tallyGet (slots.foldl (slotHead t player) (addGroups t player i (addAll head (calcEquip t equip 10000)))) type +
              (sumOf (groupShare t player i) type +
                unseenShare t player type (seen || occurs (calcEquip t equip 10000) type) slots)
            = (tallyGet (slots.foldl (slotHead t player) (addGroups t player i (addAll head (calcEquip t equip 10000)))) type +
                unseenShare t player type (seen || occurs (calcEquip t equip 10000) type) slots) +
              sumOf (groupShare t player i) type := by ring
          _ = _ := by
            rw [hrest]
            ring

theorem unseenShare_zero (slots : List ℕ) (seen : Bool) : unseenShare t player 0 seen slots = 0 := by
  induction slots generalizing seen with
  | nil => rfl
  | cons i slots ih =>
    rw [unseenShare]
    cases player.equipAt i <;>
    · dsimp only
      rw [ih]
      simp [sumOf]

end Adding

/-! ## The sum -/

section Sum
variable {t : CalcTables} {hero : Hero} {player : PlayerView} {head suits : List Property}

theorem calcHeroProperty_ok (hsuits : suitShare t player = .ok suits) :
    calcHeroProperty t hero (some player) head = .ok (addAll (addAll ((List.range' 1 12).foldl (slotHead t player)
      (addAll head (calcBefore t hero player))) suits) (calcBuff t hero player ++ calcFashion t hero player)) := by
  rw [suitShare] at hsuits
  simp only [calcHeroProperty, calcSlots_cells, ok_bind, hsuits, pure_eq_ok]

theorem calcHeroProperty_get (hsuits : suitShare t player = .ok suits) {r : List Property}
    (hr : calcHeroProperty t hero (some player) head = .ok r) (type : ℤ) :
    tallyGet r type + unseenShare t player type
        (decide (type ∈ head.map Prod.fst) || occurs (calcBefore t hero player) type) (List.range' 1 12) =
      tallyGet head type + sumOf (contributions t hero player suits) type := by
  rw [calcHeroProperty_ok hsuits] at hr
  obtain rfl := Except.ok.inj hr
  rw [tallyGet_addAll, tallyGet_addAll, contributions]
  simp only [sumOf_append]
  by_cases h0 : type = 0
  · subst h0
    have hzero : ∀ cs, sumOf cs 0 = 0 := fun cs => if_pos rfl
    have hslots : ∀ (slots : List ℕ) (l : List Property), tallyGet (slots.foldl (slotHead t player) l) 0 = tallyGet l 0 := by
      intro slots
      induction slots with
      | nil => exact fun _ => rfl
      | cons i slots ih =>
        intro l
        rw [foldl_cons, ih, slotHead]
        cases player.equipAt i with
        | none => rfl
        | some equip =>
          dsimp only
          rw [(addGroups_ok _).2, tallyGet_addAll]
          simp [hzero]
    rw [unseenShare_zero, hslots, tallyGet_addAll]
    simp [hzero]
  · have hseen : (decide (type ∈ head.map Prod.fst) || occurs (calcBefore t hero player) type) = true ↔
        type ∈ (addAll head (calcBefore t hero player)).map Prod.fst := by
      rw [mem_addAll h0, Bool.or_eq_true, decide_eq_true_eq]
    have hrun := @foldl_slotHead t player type h0 (List.range' 1 12) _ _ hseen
    rw [tallyGet_addAll] at hrun
    linear_combination hrun

theorem sumRight_sound (hright : SumRight t hero player head) : SumSound t hero player head := by
  obtain ⟨r, suits, hr, hsuits, hsum⟩ := hright
  refine ⟨suitProperties_inside.mp ⟨suits, hsuits⟩, fun type => ?_⟩
  have hget := calcHeroProperty_get hsuits hr type
  rw [hsum type] at hget
  exact add_eq_left.mp hget

end Sum

/-- The values are the sums exactly if no contribution of an additional group is lost; without a player the list stays as
it is. -/
theorem heroProperty_sum_iff (hero : Hero) (player : PlayerView) (head : List Property) :
    (SumRight t hero player head ↔ SumSound t hero player head) ∧ calcHeroProperty t hero none head = .ok head := by
  refine ⟨⟨sumRight_sound, fun hsound => ?_⟩, rfl⟩
  obtain ⟨suits, hsuits⟩ := suitProperties_inside.mpr hsound.suits
  refine ⟨_, suits, calcHeroProperty_ok hsuits, hsuits, fun type => ?_⟩
  have hget := calcHeroProperty_get hsuits (@calcHeroProperty_ok t hero player head suits hsuits) type
  rw [hsound.seen type, add_zero] at hget
  exact hget

/-- Two kinds of equips, the second with 10 of the type 7; the equips of one additional group count by half. -/
def oneAddition : CalcTables :=
  { noTables with
    equip := fun gid => if gid = 1 then some ⟨[], [], 0, 2⟩ else if gid = 2 then some ⟨[(7, 10)], [], 0, 2⟩ else none
    common := fun id => if id = 12 ∨ id = 13 then some ⟨5000, 1⟩ else none }

def slotOneTwice : PlayerView where
  talent _ := none
  equipAt i :=
    if i = 1 then some ⟨1, 1, fun _ => ⟨0, 0, 0⟩⟩
    else if i = 257 then some ⟨2, 1, fun _ => ⟨0, 0, 0⟩⟩
    else none
  buffs := []
  items := []

def newHero : Hero := ⟨1, 1, 1, 0, 0, 0, 0, 0, 0, 0⟩

theorem addition_lost : ¬ SumRight oneAddition newHero slotOneTwice [] := by
  intro hright
  exact absurd ((sumRight_sound hright).seen 7) (by decide)

end CServer.Calc
