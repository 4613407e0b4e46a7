import CServer.Logic.Payment
import CServer.Logic.TalentRules

/-! # `world/logic/aL.c`: what becomes of a request to change a talent

`aL_talent_update` validates a copy of the string, of the full length and without characters below `0`, and takes the fee
of a reset before it has looked at the level, the stars and the items that the new points need. It then stores the string
as it came.
-/
namespace CServer.Logic
open CServer.Lib CServer.Modules List

theorem newData_length (data : Option (List ℤ)) : (newData data).length = talentMaximumDataSize := by
  simp [newData]

def talentIndices : List ℕ := List.range talentMaximumDataSize

/-- The request gets as far as its costs: its points are allowed, and some of them change. -/
structure TalentCall.Changes (w : TalentWorld) (talents : List Talent) (c : TalentCall) (info : TalentInfo) : Prop where
  found : w.talentInfo c.type c.id c.refid = .ok (some info)
  configured : (w.skill info.talentid 1).isSome = true
  readable : talentMaximumDataSize ≤ (oldData talents info).length + 1
  allowed : StringAllowed (w.skill info.talentid) info.level (newData c.data)
  differs : ∃ i ∈ talentIndices, samePoints (w.skill info.talentid) (oldData talents info) (newData c.data) i = false

section Loop
variable {w : TalentWorld} {pid : ℕ} {s : TalentState} {c : TalentCall} {info : TalentInfo} {t : TalentTally}

def tallyOf (w : TalentWorld) (talents : List Talent) (c : TalentCall) (info : TalentInfo) : TalentTally :=
  TalentTally.start.after (w.skill info.talentid) (oldData talents info) (newData c.data) talentIndices

theorem talentLoop_iff : talentLoop w info (oldData s.talents info) (newData c.data) = .ok t ↔
    (talentMaximumDataSize ≤ (oldData s.talents info).length + 1 ∧
      StringAllowed (w.skill info.talentid) info.level (newData c.data)) ∧ t = tallyOf w s.talents c info := by
  unfold talentLoop
  rw [talentLoop_ok_iff, tallyOf, talentIndices]
  refine and_congr_left fun _ => ⟨fun h => ⟨?_, fun i hi => (h i (mem_range.mpr hi)).2.2⟩, fun h i hi => ?_⟩
  · have hlast := (h 44 (by decide)).1
    unfold talentMaximumDataSize
    omega
  · have hlt := mem_range.mp hi
    have hlen := newData_length c.data
    exact ⟨by omega, by omega, h.2 i hlt⟩

theorem tallyOf_isEqual : (tallyOf w s.talents c info).isEqual = false ↔ ∃ i ∈ talentIndices,
    samePoints (w.skill info.talentid) (oldData s.talents info) (newData c.data) i = false := by
  unfold tallyOf TalentTally.after
  simp [TalentTally.start, all_eq_false]

theorem talentUpdate_changes (h : c.Changes w s.talents info) :
    talentUpdate w pid s c = .ok (s.settle w pid c info (tallyOf w s.talents c info)) := by
  have hsome : ¬ (w.skill info.talentid 1).isNone = true := by
    rw [← Option.not_isSome, h.configured]
    decide
  unfold talentUpdate
  rw [h.found, ok_bind]
  simp only
  rw [if_neg hsome, talentLoop_iff.mpr ⟨⟨h.readable, h.allowed⟩, rfl⟩]

theorem talentUpdate_unchanged {r : ℤ × TalentState} (h : ∀ info, ¬ c.Changes w s.talents info)
    (hr : talentUpdate w pid s c = .ok r) : r.2 = s := by
  unfold talentUpdate at hr
  obtain ⟨found, hfound, hr⟩ := bind_ok_iff.mp hr
  cases found with
  | none => exact (congrArg Prod.snd (Except.ok.inj hr)).symm
  | some info =>
    simp only at hr
    split at hr
    · exact (congrArg Prod.snd (Except.ok.inj hr)).symm
    case isFalse hconf =>
      cases hloop : talentLoop w info (oldData s.talents info) (newData c.data) with
      | error stop =>
        rw [hloop] at hr
        cases stop with
        | ret ret => exact (congrArg Prod.snd (Except.ok.inj hr)).symm
        | fault f => cases hr
      | ok t =>
        rw [hloop] at hr
        obtain ⟨⟨hreadable, hallowed⟩, rfl⟩ := talentLoop_iff.mp hloop
        have hequal : (tallyOf w s.talents c info).isEqual = true := by
          by_contra hne
          have hdiffers := tallyOf_isEqual.mp (eq_false_of_ne_true hne)
          refine h info ⟨hfound, ?_, hreadable, hallowed, hdiffers⟩
          rwa [← Option.not_isNone, Bool.not_eq_true', ← Bool.not_eq_true]
        simp only [TalentState.settle, hequal, if_true] at hr
        exact (congrArg Prod.snd (Except.ok.inj hr)).symm

end Loop

/-! ## What a request costs -/

section Cost
variable (w : TalentWorld) (pid : ℕ) (talents : List Talent) (c : TalentCall) (info : TalentInfo)

def TalentCall.fee : List Cost :=
  if talentIndices.any (lowered (w.skill info.talentid) (oldData talents info) (newData c.data)) = true ∧
      (info.type = talentTypeHeroFight ∨ info.type = talentTypeHeroWork) then
    (w.resetCost.map CostConfig.pass).toList
  else []

def TalentCall.owes : List Cost :=
  debts (netted TalentTally.start.items
    (entriesOf (w.skill info.talentid) (oldData talents info) (newData c.data) talentIndices))

structure TalentCall.Suffices (inv : Inventory) : Prop where
  level : needOf (w.skill info.talentid) 1 (newData c.data) talentIndices ≤ info.level
  star : needOf (w.skill info.talentid) 2 (newData c.data) talentIndices ≤ info.star
  items : Checked inv info.id (c.owes w talents info)

def TalentCall.left : Inventory := (consumeAll w.packages pid retNotEnough info.id c.inv (c.fee w talents info)).2

/-- Nothing is taken in vain: the fee takes nothing if what is left does not suffice, and if it does and can all the same
not be consumed one after another, nothing is taken before the first cost that cannot. -/
structure TalentCall.Sound : Prop where
  short : ¬ c.Suffices w talents info (c.left w pid talents info) →
    Untaken w.packages pid c.inv info.id (c.fee w talents info)
  stuck : c.Suffices w talents info (c.left w pid talents info) →
    ¬ Payable w.packages pid info.id c.inv (c.fee w talents info ++ c.owes w talents info) →
      Untaken w.packages pid c.inv info.id (c.fee w talents info ++ c.owes w talents info)

end Cost

section Pay
variable {w : TalentWorld} {pid : ℕ} {s : TalentState} {talents : List Talent} {c : TalentCall} {info : TalentInfo}

def KeptIfFailed (inv : Inventory) (r : ℤ × Inventory) : Prop := r.1 ≠ 0 → r.2.count = inv.count

theorem payReset_fee : payReset w pid info (tallyOf w talents c info) c.inv =
    consumeAll w.packages pid retNotEnough info.id c.inv (c.fee w talents info) := by
  have hreset : (tallyOf w talents c info).isReset =
      talentIndices.any (lowered (w.skill info.talentid) (oldData talents info) (newData c.data)) := by
    unfold tallyOf TalentTally.after
    rw [show TalentTally.start.isReset = false from rfl, Bool.false_or]
  unfold payReset TalentCall.fee
  rw [hreset]
  split
  · cases w.resetCost with
    | none => rfl
    | some cfg =>
      simp only [Option.map_some, Option.toList_some, consumeAll]
  · rfl

theorem untaken_of_unpaid {packages : ConsumePackages} {inv : Inventory} {uuid : ℕ} {cost : Cost} {costs : List Cost}
    (h : (checkAndConsume packages pid inv uuid cost).1 ≠ retSuccess) : Untaken packages pid inv uuid (cost :: costs) :=
  ⟨fun hcostly => h (checkAndConsume_costly.mpr hcostly).1, fun hret => absurd hret h⟩

theorem fee_unpaid {inv : Inventory} (h : ¬ Payable w.packages pid info.id inv (c.fee w talents info)) (costs : List Cost) :
    Untaken w.packages pid inv info.id (c.fee w talents info ++ costs) := by
  unfold TalentCall.fee at h ⊢
  split at h
  case isTrue hreset =>
    rw [if_pos hreset]
    cases hcost : w.resetCost with
    | none =>
      rw [hcost] at h
      exact absurd trivial h
    | some cfg =>
      rw [hcost] at h
      exact untaken_of_unpaid fun hret => h ⟨hret, trivial⟩
  case isFalse => exact absurd trivial h

theorem payReset_ret : (payReset w pid info (tallyOf w talents c info) c.inv).1 = 0 ↔
    Payable w.packages pid info.id c.inv (c.fee w talents info) := by
  rw [payReset_fee]
  exact consumeAll_success (show retNotEnough ≠ retSuccess by decide)

theorem payReset_left : (payReset w pid info (tallyOf w talents c info) c.inv).2 = c.left w pid talents info := by
  rw [payReset_fee, TalentCall.left]

theorem payTalent_unpaid (h : ¬ Payable w.packages pid info.id c.inv (c.fee w talents info)) :
    (payTalent w pid info (tallyOf w talents c info) c.inv).2 = c.left w pid talents info := by
  have hret := payReset_ret.not.mpr h
  have hleft := @payReset_left w pid talents c info
  unfold payTalent
  generalize payReset w pid info (tallyOf w talents c info) c.inv = r at hret hleft
  obtain ⟨ret, inv⟩ := r
  simp only at hret hleft ⊢
  rw [if_pos hret, hleft]

theorem payTalent_paid (h : Payable w.packages pid info.id c.inv (c.fee w talents info)) :
    (c.Suffices w talents info (c.left w pid talents info) ∧ payTalent w pid info (tallyOf w talents c info) c.inv =
        consumeAll w.packages pid (-1) info.id (c.left w pid talents info) (c.owes w talents info)) ∨
      ¬ c.Suffices w talents info (c.left w pid talents info) ∧ payTalent w pid info (tallyOf w talents c info) c.inv =
        (-1, c.left w pid talents info) := by
  have hret := payReset_ret.mpr h
  have hleft := @payReset_left w pid talents c info
  have hlevel : (tallyOf w talents c info).needLevel = needOf (w.skill info.talentid) 1 (newData c.data) talentIndices :=
    zero_add _
  have hstar : (tallyOf w talents c info).needStar = needOf (w.skill info.talentid) 2 (newData c.data) talentIndices :=
    zero_add _
  have howes : debts (tallyOf w talents c info).items = c.owes w talents info := rfl
  unfold payTalent
  rw [hlevel, hstar, howes]
  generalize payReset w pid info (tallyOf w talents c info) c.inv = r at hret hleft
  obtain ⟨ret, inv⟩ := r
  simp only at hret hleft ⊢
  rw [if_neg (not_not.mpr hret), hleft]
  split
  case isTrue hlow => exact .inr ⟨fun hs => absurd hs.level (not_le.mpr hlow), rfl⟩
  case isFalse hlow =>
    split
    case isTrue hstars => exact .inr ⟨fun hs => absurd hs.star (not_le.mpr hstars), rfl⟩
    case isFalse hstars =>
      have hchecked := @checkAll_iff (-1) (by decide) (c.left w pid talents info) info.id (c.owes w talents info)
      unfold checkThenConsume
      split
      case isTrue hmissing => exact .inr ⟨fun hs => hmissing (hchecked.mpr hs.items), rfl⟩
      case isFalse hthere =>
        exact .inl ⟨⟨not_lt.mp hlow, not_lt.mp hstars, hchecked.mp (not_not.mp hthere)⟩, rfl⟩

theorem payTalent_kept_iff : KeptIfFailed c.inv (payTalent w pid info (tallyOf w talents c info) c.inv) ↔
    c.Sound w pid talents info := by
  have hkept := @consumeAll_count_iff w.packages pid c.inv info.id retNotEnough (c.fee w talents info)
  by_cases hfee : Payable w.packages pid info.id c.inv (c.fee w talents info)
  · obtain ⟨hsuffices, hpay⟩ | ⟨hshort, hpay⟩ := payTalent_paid hfee
    · have hfail : (-1 : ℤ) ≠ retSuccess := by decide
      have hall := @payable_append w.packages pid c.inv info.id retNotEnough (c.fee w talents info) (c.owes w talents info)
      have hinv : (consumeAll w.packages pid (-1) info.id (c.left w pid talents info) (c.owes w talents info)).2 =
          (consumeAll w.packages pid retNotEnough info.id c.inv (c.fee w talents info ++ c.owes w talents info)).2 := by
        rw [consumeAll_append hfee, TalentCall.left]
        exact consumeAll_fail retNotEnough
      have hret : (consumeAll w.packages pid (-1) info.id (c.left w pid talents info) (c.owes w talents info)).1 ≠ 0 ↔
          ¬ Payable w.packages pid info.id c.inv (c.fee w talents info ++ c.owes w talents info) := by
        rw [hall, and_iff_right hfee]
        exact (consumeAll_success hfail).not
      unfold KeptIfFailed
      rw [hpay, hret, hinv, consumeAll_count_iff]
      exact ⟨fun h => ⟨fun hn => absurd hsuffices hn, fun _ => h⟩, fun h => h.stuck hsuffices⟩
    · unfold KeptIfFailed
      rw [hpay]
      exact ⟨fun h => ⟨fun _ => hkept.mp (h (show (-1 : ℤ) ≠ 0 by decide)), fun hs => absurd hs hshort⟩,
        fun h _ => hkept.mpr (h.short hshort)⟩
  · have huntaken := fee_unpaid hfee []
    rw [append_nil] at huntaken
    refine ⟨fun _ => ⟨fun _ => huntaken, fun _ _ => fee_unpaid hfee _⟩, fun _ _ => ?_⟩
    rw [payTalent_unpaid hfee]
    exact hkept.mpr huntaken

/-- For every request and state: a request that fails leaves every count and every talent as they were exactly if it never
takes a fee, or a part of its costs, that the rest then fails after. -/
theorem talentUpdate_failed_iff (w : TalentWorld) (pid : ℕ) (s : TalentState) (c : TalentCall) :
    (∀ r, talentUpdate w pid s c = .ok r → r.1 ≠ 0 → r.2 = s) ↔
      ∀ info, c.Changes w s.talents info → c.Sound w pid s.talents info := by
  have hsettle : ∀ info, c.Changes w s.talents info →
      ((∀ r, talentUpdate w pid s c = .ok r → r.1 ≠ 0 → r.2 = s) ↔ c.Sound w pid s.talents info) := by
    intro info h
    rw [talentUpdate_changes h, ← payTalent_kept_iff, KeptIfFailed]
    have hdiffers : (tallyOf w s.talents c info).isEqual = false := tallyOf_isEqual.mpr h.differs
    unfold TalentState.settle
    rw [hdiffers]
    generalize payTalent w pid info (tallyOf w s.talents c info) c.inv = r
    obtain ⟨ret, inv⟩ := r
    simp only [Bool.false_eq_true, if_false]
    by_cases hret : ret = 0
    · rw [if_neg (not_not.mpr hret)]
      refine ⟨fun _ hne => absurd hret hne, fun _ r hr hne => ?_⟩
      rw [← Except.ok.inj hr] at hne
      exact absurd rfl hne
    · rw [if_pos hret]
      constructor
      · intro h _
        funext x
        have hconsumed := congrArg (fun s => TalentState.consumed s x) (h _ rfl hret)
        simp only at hconsumed ⊢
        omega
      · intro h r hr _
        have hcount := h hret
        rw [← Except.ok.inj hr]
        simp only [hcount, sub_self, add_zero]
  constructor
  · exact fun h info hchanges => (hsettle info hchanges).mp h
  · intro h
    by_cases hchanges : ∃ info, c.Changes w s.talents info
    · obtain ⟨info, hinfo⟩ := hchanges
      exact (hsettle info hinfo).mpr (h info hinfo)
    · exact fun r hr _ => talentUpdate_unchanged (not_exists.mp hchanges) hr

end Pay

/-- The hero's own talent 8: its first index costs items, every point of its second ten levels, and a reset one of item 6. -/
def fightTalent : TalentWorld := { oneTalent with
  skill := fun talentid idx =>
    if talentid = 8 ∧ idx = 1 then some ⟨0, 0, 0, 0, 0, 9, 0, 0, ⟨41, 5, 10, 2, 50⟩, ⟨0, 0, 0, 0, 0⟩⟩
    else if talentid = 8 ∧ idx = 2 then some ⟨0, 0, 0, 0, 0, 9, 0, 0, ⟨91, 1, 10, 0, 0⟩, ⟨0, 0, 0, 0, 0⟩⟩
    else none
  resetCost := some ⟨41, 6, 1⟩ }

def fightPoints (first second : ℤ) : TalentCall where
  type := talentTypeHeroFight
  id := 1
  refid := 3
  data := some ((48 + first) :: (48 + second) :: List.replicate 43 48)
  inv := ⟨fun _ => some 100, fun _ _ => none, fun _ => 0⟩
  sent := fun _ => true

def threeFight : TalentState := ⟨[⟨talentTypeHeroFight, 1, 3, 51 :: List.replicate 44 48⟩], fun _ => 0, fun _ => 0⟩

/-- Two points are taken back and three put where the hero of level 20 needs level 30: refused, and the fee is gone. -/
theorem talentUpdate_takes_fee :
    (talentUpdate fightTalent 100000 threeFight (fightPoints 1 3)).map (fun r => (r.1, r.2.consumed (.item 6))) =
      .ok (-1, 1) ∧
    ¬ ∀ r, talentUpdate fightTalent 100000 threeFight (fightPoints 1 3) = .ok r → r.1 ≠ 0 → r.2 = threeFight := by
  have hends : (talentUpdate fightTalent 100000 threeFight (fightPoints 1 3)).map
      (fun r => (r.1, r.2.consumed (.item 6))) = .ok (-1, 1) := by decide +kernel
  refine ⟨hends, fun h => ?_⟩
  cases hrun : talentUpdate fightTalent 100000 threeFight (fightPoints 1 3) with
  | error f =>
    rw [hrun] at hends
    cases hends
  | ok r =>
    rw [hrun] at hends
    obtain ⟨hret, hfee⟩ := ok_pair_inj hends
    rw [h r hrun (by rw [hret]; decide)] at hfee
    exact absurd hfee (by decide)

/-! ## What is stored -/

/-- No string, for which the empty one is stored, or one of 45 characters and more that are digits or above. -/
def FullString (data : Option (List ℤ)) : Prop :=
  ∀ string, data = some string → talentMaximumDataSize ≤ string.length ∧ ∀ i < talentMaximumDataSize, 48 ≤ string.getD i 0

/-- Read index for index, the string says the points that were validated. -/
def Reads (stored new : List ℤ) : Prop := ∀ i < talentMaximumDataSize, talentValue stored (i + 1) = .ok (pointsAt new i)

theorem pointsAt_newData {data : Option (List ℤ)} {i : ℕ} (hi : i < talentMaximumDataSize) :
    pointsAt (newData data) i = max (pointsAt (storedData data) i) 0 := by
  unfold pointsAt
  rw [newData_getD hi]
  split
  · omega
  · omega

theorem fullString_iff {data : Option (List ℤ)} : FullString data ↔
    talentMaximumDataSize ≤ (storedData data).length ∧ ∀ i < talentMaximumDataSize, 48 ≤ (storedData data).getD i 0 := by
  cases data with
  | none =>
    refine iff_of_true (fun _ h => nomatch h) ⟨(length_replicate ..).ge, fun i hi => ?_⟩
    rw [storedData, Option.getD_none, talentEmpty_getD hi]
  | some string => exact ⟨fun h => h string rfl, fun h _ hs => Option.some.inj hs ▸ h⟩

theorem reads_iff {data : Option (List ℤ)} : Reads (storedData data) (newData data) ↔ FullString data := by
  rw [fullString_iff]
  constructor
  · intro h
    have hchar : ∀ i < talentMaximumDataSize, i ≤ (storedData data).length ∧ 48 ≤ (storedData data).getD i 0 := by
      intro i hi
      obtain ⟨hle, heq⟩ := talentValue_iff.mp (h i hi)
      rw [pointsAt_newData hi] at heq
      refine ⟨hle, ?_⟩
      unfold pointsAt at heq
      omega
    refine ⟨?_, fun i hi => (hchar i hi).2⟩
    obtain ⟨hle, hlast⟩ := hchar 44 (by decide)
    by_contra hshort
    have hlen : (storedData data).length = 44 := by
      unfold talentMaximumDataSize at hshort
      omega
    rw [List.getD_eq_getElem?_getD, List.getElem?_eq_none (by omega)] at hlast
    exact absurd hlast (by decide)
  · intro h i hi
    have hchar := h.2 i hi
    rw [talentValue_iff, pointsAt_newData hi]
    unfold pointsAt
    exact ⟨by have := h.1; omega, by omega⟩

theorem talentSet_get {talents : List Talent} {type : ℤ} {id : ℕ} {refid : ℤ} {data : Option (List ℤ)}
    (hrange : 0 < type ∧ type < talentTypeMax) :
    ∃ t, talentGet (talentSet talents type id refid data) type id = some t ∧ t.data = storedData data := by
  unfold talentSet
  rw [if_pos hrange]
  cases hget : talentGet talents type id with
  | none =>
    refine ⟨⟨type, id, refid, storedData data⟩, ?_, rfl⟩
    simp only [talentGet, lookup_snoc] at hget ⊢
    rw [hget, if_pos trivial, Option.none_or]
  | some t =>
    refine ⟨{ t with refid := refid, data := storedData data }, ?_, rfl⟩
    have hfound := @lookup_adjust Talent _ _ (fun t => (t.type, t.id)) (type, id) (type, id)
      (fun t => { t with refid := refid, data := storedData data }) (fun _ h => h) talents
    rw [if_pos rfl] at hfound
    simp only [talentGet] at hget ⊢
    rw [hfound, hget, Option.map_some]

theorem talentSet_mem {talents : List Talent} {type : ℤ} {id : ℕ} {refid : ℤ} {data : Option (List ℤ)} {t : Talent}
    (h : t ∈ talentSet talents type id refid data) :
    t ∈ talents ∨ t.type = type ∧ t.id = id ∧ t.data = storedData data := by
  unfold talentSet at h
  split at h
  · split at h
    · obtain h | h := mem_append.mp h
      · exact .inl h
      · rw [mem_singleton.mp h]
        exact .inr ⟨rfl, rfl, rfl⟩
    · obtain ⟨a, ha, rfl⟩ := mem_map.mp h
      split
      case isTrue hkey =>
        obtain ⟨htype, hid⟩ := Prod.mk.inj hkey
        exact .inr ⟨htype, hid, rfl⟩
      case isFalse => exact .inl ha
  · exact .inl h

def Lawful (skill : ℤ → Option TalentSkillConfig) (level : ℤ) (new : List ℤ) : Prop := ∀ i < talentMaximumDataSize,
  match skill (i + 1) with
  | none => pointsAt new i = 0
  | some cfg => (pointsAt new i > 0 → cfg.dependLevel ≤ level) ∧ cfg.Kept new (pointsAt new i)

theorem StringAllowed.lawful {skill : ℤ → Option TalentSkillConfig} {level : ℤ} {new : List ℤ}
    (h : StringAllowed skill level new) : Lawful skill level new := by
  intro i hi
  have hallowed := h i hi
  unfold IndexAllowed at hallowed
  cases hcfg : skill (i + 1) with
  | none =>
    rw [hcfg] at hallowed
    exact hallowed
  | some cfg =>
    rw [hcfg] at hallowed
    exact ⟨hallowed.1, check_sound hallowed.2.2.2⟩

/-- The talent was stored by this request: its string is full, and reads as the one that was validated for it. -/
structure Talent.StoredBy (w : TalentWorld) (c : TalentCall) (info : TalentInfo) (t : Talent) : Prop where
  found : w.talentInfo c.type c.id c.refid = .ok (some info)
  owner : t.type = info.type ∧ t.id = info.id
  full : talentMaximumDataSize ≤ t.data.length
  reads : Reads t.data (newData c.data)
  lawful : Lawful (w.skill info.talentid) info.level (newData c.data)

section Stored
variable {w : TalentWorld} {pid : ℕ} {s : TalentState} {c : TalentCall} {info : TalentInfo} {r : ℤ × TalentState}

theorem settle_talents (h : c.Changes w s.talents info) (hr : talentUpdate w pid s c = .ok r) :
    r.1 = 0 ∧ r.2.talents = talentSet s.talents info.type info.id info.refid c.data ∨ r.1 ≠ 0 ∧ r.2.talents = s.talents := by
  rw [talentUpdate_changes h] at hr
  obtain rfl := Except.ok.inj hr
  have hdiffers : (tallyOf w s.talents c info).isEqual = false := tallyOf_isEqual.mpr h.differs
  unfold TalentState.settle
  rw [hdiffers]
  generalize payTalent w pid info (tallyOf w s.talents c info) c.inv = paid
  obtain ⟨ret, inv⟩ := paid
  simp only [Bool.false_eq_true, if_false]
  by_cases hret : ret = 0
  · rw [if_neg (not_not.mpr hret)]
    exact .inl ⟨rfl, rfl⟩
  · rw [if_pos hret]
    exact .inr ⟨hret, rfl⟩

theorem stored_reads_iff (h : c.Changes w s.talents info) (hr : talentUpdate w pid s c = .ok r) (hret : r.1 = 0) :
    (∃ t, talentGet r.2.talents info.type info.id = some t ∧ Reads t.data (newData c.data)) ↔ FullString c.data := by
  obtain ⟨-, htalents⟩ := (settle_talents h hr).resolve_right fun hn => hn.1 hret
  obtain ⟨t, hget, hdata⟩ := @talentSet_get s.talents info.type info.id info.refid c.data
    (TalentOwners.talentInfo_kept h.found).1
  rw [htalents, ← reads_iff, ← hdata]
  constructor
  · intro h
    obtain ⟨t', hget', hreads⟩ := h
    obtain rfl := some_unique hget hget'
    exact hreads
  · exact fun hreads => ⟨t, hget, hreads⟩

theorem talentStep_stored {s' : TalentState} (hfull : FullString c.data) (hs : talentStep w pid s c = .ok s') {t : Talent}
    (ht : t ∈ s'.talents) : t ∈ s.talents ∨ ∃ info, t.StoredBy w c info := by
  unfold talentStep at hs
  obtain ⟨r, hr, hs⟩ := bind_ok_iff.mp hs
  obtain rfl := Except.ok.inj hs
  by_cases hchanges : ∃ info, c.Changes w s.talents info
  · obtain ⟨info, h⟩ := hchanges
    obtain ⟨-, htalents⟩ | ⟨-, htalents⟩ := settle_talents h hr
    · rw [htalents] at ht
      obtain hold | ⟨htype, hid, hdata⟩ := talentSet_mem ht
      · exact .inl hold
      · refine .inr ⟨info, h.found, ⟨htype, hid⟩, ?_, ?_, h.allowed.lawful⟩
        · rw [hdata]
          exact (fullString_iff.mp hfull).1
        · rw [hdata]
          exact reads_iff.mpr hfull
    · exact .inl (htalents ▸ ht)
  · rw [talentUpdate_unchanged (not_exists.mp hchanges) hr] at ht
    exact .inl ht

end Stored

/-- In every run of requests without a string or with full ones, between which level, stars and configuration may change, every
talent reads as a string that was validated for it; and what the next request that changes anything stores reads as what was
validated exactly if it has none or a full one. -/
theorem talentRun_stored (pid : ℕ) (steps : List (TalentWorld × TalentCall)) (s : TalentState)
    (hfull : ∀ p ∈ steps, FullString p.2.data)
    (hrun : run (fun s (p : TalentWorld × TalentCall) => talentStep p.1 pid s p.2) .start steps = .ok s) :
    (∀ t ∈ s.talents, ∃ p ∈ steps, ∃ info, t.StoredBy p.1 p.2 info) ∧
      ∀ w c info r, c.Changes w s.talents info → talentUpdate w pid s c = .ok r → r.1 = 0 →
        ((∃ t, talentGet r.2.talents info.type info.id = some t ∧ Reads t.data (newData c.data)) ↔ FullString c.data) := by
  refine ⟨?_, fun w c info r h hr hret => stored_reads_iff h hr hret⟩
  have hstep : ∀ (s : TalentState) (p : TalentWorld × TalentCall) (s' : TalentState),
      (∀ t ∈ s.talents, ∃ p ∈ steps, ∃ info, t.StoredBy p.1 p.2 info) → p ∈ steps ∧ FullString p.2.data →
        talentStep p.1 pid s p.2 = .ok s' → ∀ t ∈ s'.talents, ∃ p ∈ steps, ∃ info, t.StoredBy p.1 p.2 info := by
    intro s p s' h hp hs t ht
    obtain hold | hnew := talentStep_stored hp.2 hs ht
    · exact h t hold
    · exact ⟨p, hp.1, hnew⟩
  exact run_preserves hstep steps _ s (fun _ ht => absurd ht not_mem_nil)
    (along_of_forall steps _ fun p hp => ⟨hp, hfull p hp⟩) hrun

theorem talentRun_stored_three : ∃ s : TalentState,
    run (fun s (p : TalentWorld × TalentCall) => talentStep p.1 100000 s p.2) .start [(oneTalent, onePoint 3)] = .ok s ∧
      s.talents = [⟨1, 1, 3, 51 :: List.replicate 44 48⟩] ∧
      (∀ t ∈ s.talents, ∃ p ∈ [(oneTalent, onePoint 3)], ∃ info, t.StoredBy p.1 p.2 info) := by
  have hends : (run (fun s (p : TalentWorld × TalentCall) => talentStep p.1 100000 s p.2) .start
      [(oneTalent, onePoint 3)]).map TalentState.talents = .ok [⟨1, 1, 3, 51 :: List.replicate 44 48⟩] := by decide +kernel
  cases hrun : run (fun s (p : TalentWorld × TalentCall) => talentStep p.1 100000 s p.2) .start
      [(oneTalent, onePoint 3)] with
  | error f =>
    rw [hrun] at hends
    cases hends
  | ok s =>
    rw [hrun] at hends
    refine ⟨s, rfl, Except.ok.inj hends, (talentRun_stored 100000 _ s (fun p hp => ?_) hrun).1⟩
    rw [mem_singleton.mp hp]
    exact fullString_iff.mpr ⟨by decide, by decide⟩

def shortPoint : TalentCall := { onePoint 3 with data := some [51] }

/-- It is accepted and stored as it is: the second index then reads as -48, and the third lies behind the end. -/
theorem talentUpdate_stores_short :
    (talentUpdate oneTalent 100000 .start shortPoint).map (fun r => (r.1, r.2.talents)) = .ok (0, [⟨1, 1, 3, [51]⟩]) ∧
      pointsAt (newData shortPoint.data) 1 = 0 ∧ talentValue [51] 2 = .ok (-48) ∧
      talentValue [51] 3 = .error (.fault .outOfBounds) ∧ ¬ Reads [51] (newData shortPoint.data) := by
  refine ⟨by decide +kernel, by decide, rfl, rfl, fun h => ?_⟩
  have hvalue := (talentValue_iff.mp (h 1 (by decide))).2
  exact absurd hvalue (by decide)

end CServer.Logic
