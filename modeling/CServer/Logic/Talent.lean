import CServer.Logic.Goods
import CServer.Logic.TalentInfo

/-! # `world/logic/aL.c`: talents

`aL_talent_update` replaces the points of a talent. For every index it compares what the old points cost
with what the new ones do, discounts what is to be paid back, and adds it up by item; the items in debt
are then consumed and the others sent as a reward, and the new points are stored as they came.

Arithmetic is that of ℤ: runs are looked at in which no `int` overflows. The inventory of a call is what
the player has when it begins. A character is a `signed char`, and `data` is a string without its end.

The worth of a talent is what its points cost undiscounted.
-/
namespace CServer.Logic
open CServer.Lib CServer.Modules Option
open List hiding lookup

/-! ## The code -/

def talentMaximumDataSize : ℕ := 45
def talentConsumeCount : ℕ := 2

structure TalentConsume where
  type : ℤ
  id : ℤ
  value : ℤ
  incr : ℤ
  payback : ℤ

structure TalentSkillConfig where
  dependId1 : ℤ
  dependId2 : ℤ
  dependId3 : ℤ
  dependPoint : ℤ
  dependLevel : ℤ
  pointLimit : ℤ
  mutexId1 : ℤ
  mutexId2 : ℤ
  consume1 : TalentConsume
  consume2 : TalentConsume

/-- The player's owners of talents and the configuration: the costs by talent id and index, what a reset
of a hero's own talents costs, and the consume packages. -/
structure TalentWorld extends TalentOwners where
  skill : ℤ → ℤ → Option TalentSkillConfig
  resetCost : Option CostConfig
  packages : ConsumePackages

structure Talent where
  type : ℤ
  id : ℕ
  refid : ℤ
  data : List ℤ
  deriving DecidableEq

inductive TalentStop
  | ret (r : ℤ)
  | fault (f : Fault)

def charAt (data : List ℤ) (i : ℤ) : Except TalentStop ℤ :=
  if 0 ≤ i ∧ i ≤ data.length then .ok (data.getD i.toNat 0) else .error (.fault .outOfBounds)

def talentValue (data : List ℤ) (idx : ℤ) : Except TalentStop ℤ := do
  let c ← charAt data (idx - 1)
  .ok (c - 48)

def incrValue (base incr t : ℤ) : ℤ := base * t + incr * (t * (t - 1) / 2)

def TalentConsume.cost (c : TalentConsume) (points : ℤ) : ℤ :=
  if points > 0 then incrValue c.value c.incr points else 0

/-- `change`: what is paid back, after the discount, or as a negative number what is consumed. -/
def TalentConsume.change (c : TalentConsume) (o n : ℤ) : ℤ :=
  if c.cost o - c.cost n > 0 then ((c.cost o - c.cost n) * c.payback).tdiv 100 else c.cost o - c.cost n

/-- `consume_item_list`, `consume_91`, `is_equal` and `is_reset`. -/
structure TalentTally where
  items : List CostConfig
  needLevel : ℤ
  needStar : ℤ
  isEqual : Bool
  isReset : Bool

def TalentTally.start : TalentTally :=
  ⟨List.replicate (talentMaximumDataSize * talentConsumeCount) ⟨0, 0, 0⟩, 0, 0, true, false⟩

def addChange (type id change : ℤ) : List CostConfig → List CostConfig
  | [] => []
  | slot :: rest =>
    if (slot.type = type ∧ slot.id = id) ∨ slot.type = 0 then ⟨type, id, slot.value + change⟩ :: rest
    else slot :: addChange type id change rest

def TalentTally.consume (t : TalentTally) (o n : ℤ) (c : TalentConsume) : Except TalentStop TalentTally :=
  if c.type = 91 then
    if n > 0 then
      if c.id = 1 then .ok { t with needLevel := t.needLevel + incrValue c.value c.incr n }
      else if c.id = 2 then .ok { t with needStar := t.needStar + incrValue c.value c.incr n }
      else .error (.ret (-1))
    else .ok t
  else .ok { t with items := addChange c.type c.id (c.change o n) t.items }

def checkMutex (new : List ℤ) (mutexId : ℤ) : Except TalentStop Unit :=
  if mutexId = 0 then .ok ()
  else do
    let v ← talentValue new mutexId
    if v ≠ 0 then .error (.ret (-1)) else .ok ()

def dependPass (new : List ℤ) (dependPoint : ℤ) (pass : Bool) (dependId : ℤ) : Except TalentStop Bool :=
  if pass ∨ dependId = 0 then .ok pass
  else do
    let v ← talentValue new dependId
    .ok (decide (v ≥ dependPoint))

def TalentSkillConfig.check (cfg : TalentSkillConfig) (new : List ℤ) (n : ℤ) : Except TalentStop Unit :=
  if n > cfg.pointLimit then .error (.ret (-1))
  else if n > 0 then do
    checkMutex new cfg.mutexId1
    checkMutex new cfg.mutexId2
    let free := cfg.dependId1 = 0 ∧ cfg.dependId2 = 0 ∧ cfg.dependId3 = 0
    let pass ← dependPass new cfg.dependPoint (decide free) cfg.dependId1
    let pass ← dependPass new cfg.dependPoint pass cfg.dependId2
    let pass ← dependPass new cfg.dependPoint pass cfg.dependId3
    if pass then .ok () else .error (.ret (-1))
  else .ok ()

def talentIndex (skill : ℤ → Option TalentSkillConfig) (level : ℤ) (old new : List ℤ) (t : TalentTally) (i : ℕ) :
    Except TalentStop TalentTally := do
  let o ← talentValue old (i + 1)
  let n ← talentValue new (i + 1)
  match skill (i + 1) with
  | none => if n ≠ 0 then .error (.ret (-1)) else .ok t
  | some cfg =>
    if n > 0 ∧ cfg.dependLevel > level then .error (.ret (-1))
    else do
      let t := { t with isEqual := t.isEqual && decide (o = n), isReset := t.isReset || decide (n < o) }
      let t ← t.consume o n cfg.consume1
      let t ← t.consume o n cfg.consume2
      cfg.check new n
      .ok t

/-- `new_data`: what is below `0` counts as `0`, and so does what `strncpy` fills up with. -/
def newData (data : Option (List ℤ)) : List ℤ :=
  ((data.getD [] ++ List.replicate talentMaximumDataSize 0).take talentMaximumDataSize).map fun c =>
    if c < 48 then 48 else c

/-- `emptyTalent`, which `talent_init` fills with `0` before any player is loaded. -/
def talentEmpty : List ℤ := List.replicate talentMaximumDataSize 48

/-- The first line of `talent_set`. -/
def storedData (data : Option (List ℤ)) : List ℤ := data.getD talentEmpty

def talentGet (talents : List Talent) (type : ℤ) (id : ℕ) : Option Talent :=
  lookup (fun t => (t.type, t.id)) (type, id) talents

def talentSet (talents : List Talent) (type : ℤ) (id : ℕ) (refid : ℤ) (data : Option (List ℤ)) : List Talent :=
  if 0 < type ∧ type < talentTypeMax then
    match talentGet talents type id with
    | none => talents ++ [⟨type, id, refid, storedData data⟩]
    | some _ =>
      adjust (fun t => (t.type, t.id)) (type, id) (fun t => { t with refid := refid, data := storedData data }) talents
  else talents

def debts (items : List CostConfig) : List Cost :=
  (items.filter fun s => s.type ≠ 0 ∧ s.value < 0).map fun s => CostConfig.pass ⟨s.type, s.id, -s.value⟩

def credits (items : List CostConfig) : List CostConfig := items.filter fun s => s.type ≠ 0 ∧ s.value > 0

variable (w : TalentWorld)

variable (pid : ℕ)

def payReset (info : TalentInfo) (t : TalentTally) (inv : Inventory) : ℤ × Inventory :=
  if t.isReset ∧ (info.type = talentTypeHeroFight ∨ info.type = talentTypeHeroWork) then
    match w.resetCost with
    | none => (retSuccess, inv)
    | some cfg =>
      match checkAndConsume w.packages pid inv info.id cfg.pass with
      | (ret, inv) => if ret ≠ 0 then (retNotEnough, inv) else (retSuccess, inv)
  else (retSuccess, inv)

def payTalent (info : TalentInfo) (t : TalentTally) (inv : Inventory) : ℤ × Inventory :=
  match payReset w pid info t inv with
  | (ret, inv) =>
    if ret ≠ 0 then (ret, inv)
    else if t.needLevel > info.level then (-1, inv)
    else if t.needStar > info.star then (-1, inv)
    else checkThenConsume w.packages pid (-1) (-1) info.id (debts t.items) (debts t.items) inv

/-! ### Calls and what they move -/

/-- The talents, and in all how much of everything the calls consumed and paid back. -/
structure TalentState where
  talents : List Talent
  consumed : Good → ℤ
  refunded : Good → ℤ

/-- A call, with the player's inventory and whether `sendReward` succeeds for a slot. -/
structure TalentCall where
  type : ℤ
  id : ℕ
  refid : ℤ
  data : Option (List ℤ)
  inv : Inventory
  sent : CostConfig → Bool

def refundOf (uuid : ℕ) (sent : CostConfig → Bool) (items : List CostConfig) (x : Good) : ℤ :=
  (((credits items).filter sent).map fun s =>
    if goodOf uuid (toUnsigned s.type) (toUnsigned s.id) = some x then s.value else 0).sum

def talentLoop (info : TalentInfo) (old new : List ℤ) : Except TalentStop TalentTally :=
  (List.range talentMaximumDataSize).foldlM (talentIndex (w.skill info.talentid) info.level old new) .start

def TalentState.settle (s : TalentState) (c : TalentCall) (info : TalentInfo)
    (t : TalentTally) : ℤ × TalentState :=
  if t.isEqual then (0, s)
  else
    match payTalent w pid info t c.inv with
    | (ret, inv) =>
      let s := { s with consumed := fun x => s.consumed x + (c.inv.count x - inv.count x) }
      if ret ≠ 0 then (ret, s)
      else (0, { s with
        talents := talentSet s.talents info.type info.id info.refid c.data
        refunded := fun x => s.refunded x + refundOf info.id c.sent t.items x })

def oldData (talents : List Talent) (info : TalentInfo) : List ℤ :=
  ((talentGet talents info.type info.id).map Talent.data).getD talentEmpty

def talentUpdate (s : TalentState) (c : TalentCall) : Except Fault (ℤ × TalentState) := do
  let info ← w.talentInfo c.type c.id c.refid
  match info with
  | none => .ok (-1, s)
  | some info =>
    if (w.skill info.talentid 1).isNone then .ok (-1, s)
    else
      match talentLoop w info (oldData s.talents info) (newData c.data) with
      | .error (.ret r) => .ok (r, s)
      | .error (.fault f) => .error f
      | .ok t => .ok (s.settle w pid c info t)

def talentStep (s : TalentState) (c : TalentCall) : Except Fault TalentState := do
  let r ← talentUpdate w pid s c
  .ok r.2

def TalentState.start : TalentState := ⟨[], fun _ => 0, fun _ => 0⟩

/-- An entry of the table: an item or a hero item, a requirement, or unused and zero. -/
def TalentConsume.Proper (c : TalentConsume) : Prop :=
  c.type = 91 ∨ (c.type = 0 ∧ c.id = 0 ∧ c.value = 0 ∧ c.incr = 0) ∨
    ((c.type = rewardTypeItem ∨ c.type = rewardTypeHeroItem) ∧ 0 ≤ c.value ∧ 0 ≤ c.incr ∧ 0 ≤ c.payback ∧ c.payback ≤ 100)

def TalentWorld.Proper (w : TalentWorld) : Prop :=
  ∀ talentid idx cfg, w.skill talentid idx = some cfg → cfg.consume1.Proper ∧ cfg.consume2.Proper

def NoOverflow (s : TalentState) (c : TalentCall) : Prop :=
  ∀ info t, w.talentInfo c.type c.id c.refid = .ok (some info) →
    talentLoop w info (oldData s.talents info) (newData c.data) = .ok t →
    ∀ slot ∈ t.items, -2 ^ 31 < slot.value ∧ slot.value < 2 ^ 31

section Takes
variable {inv : Inventory} {x : Good}

theorem payReset_takes {w : TalentWorld} {pid : ℕ} (hpid : aiMaxId < pid) (info : TalentInfo) (t : TalentTally)
    (hx : x.id ≠ 0) : (payReset w pid info t inv).2.count x ≤ inv.count x := by
  unfold payReset
  split
  · split
    · exact le_refl _
    · next cfg _ =>
      obtain ⟨hless, -⟩ := @checkAndConsume_takes w.packages inv x pid hpid info.id cfg.pass hx
      generalize checkAndConsume w.packages pid inv info.id cfg.pass = r at hless
      obtain ⟨ret, inv'⟩ := r
      simp only at hless ⊢
      split
      · exact hless
      · exact hless
  · exact le_refl _

theorem payTalent_takes {w : TalentWorld} {pid : ℕ} (hpid : aiMaxId < pid) (info : TalentInfo) (t : TalentTally)
    (hx : x.id ≠ 0) : Takes inv x ((debts t.items).map (owed info.id x)).sum (payTalent w pid info t inv) := by
  have hreset := @payReset_takes inv x w pid hpid info t hx
  unfold payTalent
  generalize payReset w pid info t inv = r at hreset
  obtain ⟨ret, inv'⟩ := r
  simp only at hreset ⊢
  split
  · next hret => exact takes_refused hret hreset _
  · split
    · exact takes_refused (by decide) hreset _
    · split
      · exact takes_refused (by decide) hreset _
      · unfold checkThenConsume
        split
        · exact takes_refused (by decide) hreset _
        · obtain ⟨hless, htake⟩ := @consumeAll_takes w.packages x pid hpid (-1) (by decide) info.id hx (debts t.items) inv'
          exact ⟨hless.trans hreset, fun h0 => (htake h0).trans hreset⟩

end Takes

/-! ## What the slots add up to -/

section Tally
variable {uuid : ℕ} {x : Good}

def about (uuid : ℕ) (x : Good) (type id n : ℤ) : ℤ :=
  if goodOf uuid (toUnsigned type) (toUnsigned id) = some x then n else 0

theorem about_add (type id n m : ℤ) : about uuid x type id (n + m) = about uuid x type id n + about uuid x type id m := by
  unfold about
  split
  · rfl
  · rfl

theorem about_le {type id n m : ℤ} (h : n ≤ m) : about uuid x type id n ≤ about uuid x type id m := by
  unfold about
  split
  · exact h
  · exact le_refl 0

theorem about_nothing {type : ℤ} (h : type = 0 ∨ type = 91) (id n : ℤ) : about uuid x type id n = 0 := by
  unfold about
  rw [if_neg]
  intro hg
  rcases h with rfl | rfl
  · rcases goodOf_some hg with ⟨ht, -⟩ | ⟨ht, -⟩
    · exact absurd ht (by decide)
    · exact absurd ht (by decide)
  · rcases goodOf_some hg with ⟨ht, -⟩ | ⟨ht, -⟩
    · exact absurd ht (by decide)
    · exact absurd ht (by decide)

def slotSum (uuid : ℕ) (x : Good) (items : List CostConfig) : ℤ := sumOf (fun s => about uuid x s.type s.id s.value) items

/-- There is room for `m` more kinds, and the slots that hold none are zero. -/
structure Roomy (m : ℕ) (items : List CostConfig) : Prop where
  room : m ≤ items.countP fun s => s.type = 0
  zero : ∀ s ∈ items, s.type = 0 → s.value = 0

theorem Roomy.mono {m m' : ℕ} {items : List CostConfig} (h : Roomy m items) (hm : m' ≤ m) : Roomy m' items :=
  ⟨hm.trans h.room, h.zero⟩

theorem addChange_roomy {type id change : ℤ} (hempty : type = 0 → change = 0) (items : List CostConfig) : ∀ m,
    Roomy (m + 1) items → Roomy m (addChange type id change items) ∧
      slotSum uuid x (addChange type id change items) = slotSum uuid x items + about uuid x type id change := by
  induction items with
  | nil =>
    intro m h
    exact absurd h.room (by simp)
  | cons slot rest ih =>
    intro m h
    have hroom := h.room
    rw [countP_cons] at hroom
    have hzero := h.zero slot mem_cons_self
    rw [addChange]
    by_cases hslot : slot.type = 0
    · rw [if_pos (.inr hslot)]
      rw [if_pos (by simpa using hslot)] at hroom
      refine ⟨⟨?_, ?_⟩, ?_⟩
      · rw [countP_cons]
        omega
      · intro s hs
        rcases mem_cons.mp hs with rfl | hs
        · intro ht
          simp only at ht ⊢
          rw [hzero hslot, hempty ht, add_zero]
        · exact h.zero s (mem_cons_of_mem slot hs)
      · rw [slotSum, sumOf_cons, slotSum, sumOf_cons, about_nothing (.inl hslot), hzero hslot]
        simp only [zero_add]
        ring
    · by_cases hkind : slot.type = type ∧ slot.id = id
      · rw [if_pos (.inl hkind)]
        rw [if_neg (by simpa using hslot)] at hroom
        refine ⟨⟨?_, ?_⟩, ?_⟩
        · rw [countP_cons]
          omega
        · intro s hs
          rcases mem_cons.mp hs with rfl | hs
          · exact fun ht => absurd (hkind.1.trans ht) hslot
          · exact h.zero s (mem_cons_of_mem slot hs)
        · rw [slotSum, sumOf_cons, slotSum, sumOf_cons, hkind.1, hkind.2]
          simp only [about_add]
          ring
      · rw [if_neg (fun hor => hor.elim hkind hslot)]
        rw [if_neg (by simpa using hslot)] at hroom
        obtain ⟨hr, hs⟩ := ih m ⟨hroom, fun s hs => h.zero s (mem_cons_of_mem slot hs)⟩
        refine ⟨⟨?_, ?_⟩, ?_⟩
        · rw [countP_cons]
          exact hr.room.trans (Nat.le_add_right _ _)
        · intro s hmem
          rcases mem_cons.mp hmem with rfl | hmem
          · exact fun ht => absurd ht hslot
          · exact hr.zero s hmem
        · rw [slotSum, sumOf_cons, ← slotSum, hs, slotSum, slotSum, sumOf_cons]
          ring

theorem cost_nonneg {c : TalentConsume} (hc : c.Proper) (hne : c.type ≠ 91) (points : ℤ) : 0 ≤ c.cost points := by
  have hv : 0 ≤ c.value ∧ 0 ≤ c.incr := by
    rcases hc with h | h | h
    · exact absurd h hne
    · exact ⟨le_of_eq h.2.2.1.symm, le_of_eq h.2.2.2.symm⟩
    · exact ⟨h.2.1, h.2.2.1⟩
  unfold TalentConsume.cost incrValue
  split
  · next hp =>
    have h1 : 0 ≤ points * (points - 1) / 2 := Int.ediv_nonneg (mul_nonneg (by omega) (by omega)) (by decide)
    exact add_nonneg (mul_nonneg hv.1 (by omega)) (mul_nonneg hv.2 h1)
  · exact le_refl 0

theorem change_le {c : TalentConsume} (hc : c.Proper) (hne : c.type ≠ 91) (o n : ℤ) :
    c.change o n ≤ c.cost o - c.cost n := by
  unfold TalentConsume.change
  split
  · next hpos =>
    rcases hc with h | h | h
    · exact absurd h hne
    · have hz : ∀ k, c.cost k = 0 := by
        intro k
        simp [TalentConsume.cost, incrValue, h.2.2.1, h.2.2.2]
      rw [hz, hz] at hpos
      exact absurd hpos (by decide)
    · have hprod : 0 ≤ (c.cost o - c.cost n) * c.payback := mul_nonneg (by omega) h.2.2.2.1
      rw [Int.tdiv_eq_ediv_of_nonneg hprod]
      apply Int.ediv_le_of_le_mul (by decide)
      exact mul_le_mul_of_nonneg_left h.2.2.2.2 (by omega)
  · exact le_refl _

def worth (uuid : ℕ) (x : Good) (cfg : Option TalentSkillConfig) (points : ℤ) : ℤ :=
  match cfg with
  | none => 0
  | some cfg => about uuid x cfg.consume1.type cfg.consume1.id (cfg.consume1.cost points) +
      about uuid x cfg.consume2.type cfg.consume2.id (cfg.consume2.cost points)

theorem consume_slots {t t' : TalentTally} {o n : ℤ} {c : TalentConsume} (hc : c.Proper) {m : ℕ}
    (hr : Roomy (m + 1) t.items) (h : t.consume o n c = .ok t') : Roomy m t'.items ∧
      slotSum uuid x t'.items + about uuid x c.type c.id (c.cost n) ≤
        slotSum uuid x t.items + about uuid x c.type c.id (c.cost o) := by
  unfold TalentTally.consume at h
  by_cases hty : c.type = 91
  · rw [if_pos hty] at h
    have hitems : t'.items = t.items := by
      split at h
      · split at h
        · rw [← Except.ok.inj h]
        · split at h
          · rw [← Except.ok.inj h]
          · cases h
      · rw [← Except.ok.inj h]
    rw [hitems, about_nothing (.inr hty), about_nothing (.inr hty)]
    exact ⟨hr.mono (Nat.le_succ m), le_refl _⟩
  · rw [if_neg hty] at h
    obtain rfl := Except.ok.inj h
    have hempty : c.type = 0 → c.change o n = 0 := by
      intro h0
      rcases hc with h | h | h
      · exact absurd h hty
      · simp [TalentConsume.change, TalentConsume.cost, incrValue, h.2.2.1, h.2.2.2]
      · rcases h.1 with h41 | h90
        · exact absurd (h0.symm.trans h41) (by decide)
        · exact absurd (h0.symm.trans h90) (by decide)
    obtain ⟨hr', hsum⟩ := @addChange_roomy uuid x c.type c.id _ hempty t.items m hr
    refine ⟨hr', ?_⟩
    simp only
    rw [hsum]
    have hle := @about_le uuid x c.type c.id _ _ (change_le hc hty o n)
    have hadd := @about_add uuid x c.type c.id (c.cost o - c.cost n) (c.cost n)
    rw [sub_add_cancel] at hadd
    omega

theorem talentValue_ok {data : List ℤ} {i : ℕ} {v : ℤ} (h : talentValue data (i + 1) = .ok v) :
    v = data.getD i 0 - 48 := by
  obtain ⟨c, hc, hv⟩ := bind_ok_iff.mp h
  unfold charAt at hc
  split at hc
  · rw [← Except.ok.inj hv, ← Except.ok.inj hc, add_sub_cancel_right, Int.toNat_natCast]
  · cases hc

theorem talentIndex_slots {skill : ℤ → Option TalentSkillConfig} {level : ℤ} {old new : List ℤ} {t t' : TalentTally}
    {i m : ℕ} (hskill : ∀ cfg, skill (i + 1) = some cfg → cfg.consume1.Proper ∧ cfg.consume2.Proper)
    (hr : Roomy (m + 2) t.items) (h : talentIndex skill level old new t i = .ok t') : Roomy m t'.items ∧
      slotSum uuid x t'.items + worth uuid x (skill (i + 1)) (new.getD i 0 - 48) ≤
        slotSum uuid x t.items + worth uuid x (skill (i + 1)) (old.getD i 0 - 48) := by
  obtain ⟨o, ho, h⟩ := bind_ok_iff.mp h
  obtain ⟨n, hn, h⟩ := bind_ok_iff.mp h
  rw [← talentValue_ok ho, ← talentValue_ok hn]
  cases hcfg : skill (i + 1) with
  | none =>
    rw [hcfg] at h
    simp only at h
    split at h
    · cases h
    · obtain rfl := Except.ok.inj h
      exact ⟨hr.mono (by omega), le_refl _⟩
  | some cfg =>
    rw [hcfg] at h
    simp only at h
    split at h
    · cases h
    · obtain ⟨t₁, h1, h⟩ := bind_ok_iff.mp h
      obtain ⟨t₂, h2, h⟩ := bind_ok_iff.mp h
      obtain ⟨-, -, h⟩ := bind_ok_iff.mp h
      obtain rfl := Except.ok.inj h
      obtain ⟨hp1, hp2⟩ := hskill cfg hcfg
      have hstep := fun hr => @consume_slots uuid x _ t₁ o n cfg.consume1 hp1 (m + 1) hr h1
      obtain ⟨hr1, hs1⟩ := hstep hr
      obtain ⟨hr2, hs2⟩ := @consume_slots uuid x _ _ o n cfg.consume2 hp2 m hr1 h2
      refine ⟨hr2, ?_⟩
      unfold worth
      simp only at hs1 ⊢
      omega

def dataWorth (skill : ℤ → Option TalentSkillConfig) (uuid : ℕ) (x : Good) (is : List ℕ) (data : List ℤ) : ℤ :=
  sumOf (fun i : ℕ => worth uuid x (skill (i + 1)) (data.getD i 0 - 48)) is

theorem talentLoop_slots {skill : ℤ → Option TalentSkillConfig} {level : ℤ} {old new : List ℤ}
    (hskill : ∀ idx cfg, skill idx = some cfg → cfg.consume1.Proper ∧ cfg.consume2.Proper) (is : List ℕ) :
    ∀ t t' : TalentTally, Roomy (2 * is.length) t.items → is.foldlM (talentIndex skill level old new) t = .ok t' →
      slotSum uuid x t'.items + dataWorth skill uuid x is new ≤ slotSum uuid x t.items + dataWorth skill uuid x is old := by
  induction is with
  | nil =>
    intro t t' _ h
    obtain rfl := Except.ok.inj h
    exact le_refl _
  | cons i is ih =>
    intro t t' hr h
    rw [foldlM_cons] at h
    obtain ⟨t₁, h1, h⟩ := bind_ok_iff.mp h
    rw [length_cons] at hr
    obtain ⟨hr1, hs1⟩ := @talentIndex_slots uuid x _ _ _ _ _ _ i (2 * is.length) (hskill _) hr h1
    have hrest := ih t₁ t' hr1 h
    rw [dataWorth, dataWorth, sumOf_cons, sumOf_cons, ← dataWorth, ← dataWorth]
    omega

theorem slots_settled {items : List CostConfig} (hfit : ∀ s ∈ items, -2 ^ 31 < s.value ∧ s.value < 2 ^ 31)
    (sent : CostConfig → Bool) :
    refundOf uuid sent items x ≤ slotSum uuid x items + ((debts items).map (owed uuid x)).sum := by
  induction items with
  | nil => exact le_refl 0
  | cons s items ih =>
    have hrest := ih fun s' hs' => hfit s' (mem_cons_of_mem s hs')
    have hs := hfit s mem_cons_self
    unfold refundOf credits debts at hrest ⊢
    rw [slotSum, sumOf_cons, ← slotSum]
    by_cases h0 : s.type = 0
    · rw [filter_cons, if_neg (by simp [h0]), filter_cons, if_neg (by simp [h0]), about_nothing (.inl h0)]
      omega
    · by_cases hneg : s.value < 0
      · have howed : owed uuid x (CostConfig.pass ⟨s.type, s.id, -s.value⟩) = - about uuid x s.type s.id s.value := by
          unfold owed CostConfig.pass about
          simp only
          split
          · unfold toUnsigned
            omega
          · rfl
        rw [filter_cons, if_neg (by simp [h0]; omega), filter_cons, if_pos (by simp [h0, hneg]), map_cons,
          map_cons, sum_cons, howed]
        omega
      · have hnon : ∀ n, 0 ≤ n → 0 ≤ about uuid x s.type s.id n := by
          intro n hn
          unfold about
          split
          · exact hn
          · exact le_refl 0
        have hpos := hnon s.value (by omega)
        rw [filter_cons (p := fun s : CostConfig => decide (s.type ≠ 0 ∧ s.value < 0)), if_neg (by simp [hneg])]
        rw [filter_cons]
        split
        · rw [filter_cons]
          split
          · rw [map_cons, sum_cons]
            unfold about at hpos ⊢
            omega
          · omega
        · omega

end Tally

/-! ## What the talents are worth -/

section Worth
variable {w : TalentWorld} {x : Good}

def Talent.worth (w : TalentWorld) (x : Good) (t : Talent) : ℤ :=
  match w.talentidOf t.type t.id with
  | none => 0
  | some talentid => dataWorth (w.skill talentid) t.id x (List.range talentMaximumDataSize) t.data

theorem worth_nonneg {uuid : ℕ} {cfg : Option TalentSkillConfig}
    (hcfg : ∀ c, cfg = some c → c.consume1.Proper ∧ c.consume2.Proper) (points : ℤ) : 0 ≤ worth uuid x cfg points := by
  have habout : ∀ c : TalentConsume, c.Proper → 0 ≤ about uuid x c.type c.id (c.cost points) := by
    intro c hc
    by_cases hty : c.type = 91
    · rw [about_nothing (.inr hty)]
    · unfold about
      split
      · exact cost_nonneg hc hty points
      · exact le_refl 0
  cases cfg with
  | none => exact le_refl 0
  | some c =>
    obtain ⟨h1, h2⟩ := hcfg c rfl
    exact add_nonneg (habout c.consume1 h1) (habout c.consume2 h2)

theorem talent_worth_nonneg (hw : w.Proper) (t : Talent) : 0 ≤ t.worth w x := by
  unfold Talent.worth
  split
  · exact le_refl 0
  · exact sumOf_nonneg fun i _ => worth_nonneg (fun cfg hcfg => hw _ _ cfg hcfg) _

theorem worth_congr {uuid : ℕ} {cfg : Option TalentSkillConfig} {a b : ℤ} (h : a = b ∨ a ≤ 0 ∧ b ≤ 0) :
    worth uuid x cfg a = worth uuid x cfg b := by
  rcases h with rfl | ⟨ha, hb⟩
  · rfl
  · have hcost : ∀ c : TalentConsume, c.cost a = c.cost b := by
      intro c
      unfold TalentConsume.cost
      rw [if_neg (by omega), if_neg (by omega)]
    cases cfg with
    | none => rfl
    | some c =>
      unfold worth
      simp only [hcost]

theorem dataWorth_congr {skill : ℤ → Option TalentSkillConfig} {uuid : ℕ} {is : List ℕ} {data data' : List ℤ}
    (h : ∀ i ∈ is, data.getD i 0 = data'.getD i 0 ∨ data.getD i 0 ≤ 48 ∧ data'.getD i 0 ≤ 48) :
    dataWorth skill uuid x is data = dataWorth skill uuid x is data' := by
  unfold dataWorth sumOf
  apply congrArg
  apply map_congr_left
  intro i hi
  apply worth_congr
  rcases h i hi with h | h
  · exact .inl (by rw [h])
  · exact .inr (by omega)

theorem talentEmpty_getD {i : ℕ} (hi : i < talentMaximumDataSize) : talentEmpty.getD i 0 = 48 := by
  rw [talentEmpty, List.getD_eq_getElem?_getD, List.getElem?_replicate, if_pos hi, getD_some]

theorem newData_getD {data : Option (List ℤ)} {i : ℕ} (hi : i < talentMaximumDataSize) :
    (newData data).getD i 0 = if (storedData data).getD i 0 < 48 then 48 else (storedData data).getD i 0 := by
  unfold newData
  rw [List.getD_eq_getElem?_getD, List.getElem?_map, List.getElem?_take_of_lt hi]
  cases data with
  | none =>
    rw [storedData, getD_none, getD_none, talentEmpty_getD hi, nil_append, List.getElem?_replicate,
      if_pos hi]
    rfl
  | some data =>
    rw [storedData, getD_some, getD_some, List.getD_eq_getElem?_getD]
    by_cases hlen : i < data.length
    · rw [List.getElem?_append_left hlen, List.getElem?_eq_getElem hlen]
      rfl
    · rw [List.getElem?_append_right (by omega), List.getElem?_replicate, if_pos (by omega),
        List.getElem?_eq_none (by omega)]
      rfl

theorem dataWorth_newData (skill : ℤ → Option TalentSkillConfig) (uuid : ℕ) (data : Option (List ℤ)) :
    dataWorth skill uuid x (List.range talentMaximumDataSize) (newData data) =
      dataWorth skill uuid x (List.range talentMaximumDataSize) (storedData data) := by
  apply dataWorth_congr
  intro i hi
  rw [newData_getD (mem_range.mp hi)]
  split
  · exact .inr (by omega)
  · exact .inl rfl

theorem dataWorth_empty (skill : ℤ → Option TalentSkillConfig) (uuid : ℕ) (is : List ℕ) :
    dataWorth skill uuid x is talentEmpty = 0 := by
  have hnone : ∀ cfg points, points ≤ 0 → worth uuid x cfg points = 0 := by
    intro cfg points hle
    cases cfg with
    | none => rfl
    | some c => simp [worth, TalentConsume.cost, about, not_lt.mpr hle]
  have hget : ∀ i, talentEmpty.getD i 0 - 48 ≤ 0 := by
    intro i
    unfold talentEmpty
    rw [List.getD_eq_getElem?_getD, List.getElem?_replicate]
    split <;> decide
  unfold dataWorth
  induction is with
  | nil => rfl
  | cons i is ih => rw [sumOf_cons, ih, add_zero, hnone _ _ (hget i)]

theorem talentSet_worth {talents : List Talent} {info : TalentInfo} {data : Option (List ℤ)}
    (hu : DistinctKeys (fun t : Talent => (t.type, t.id)) talents) (hrange : 0 < info.type ∧ info.type < talentTypeMax)
    (hid : w.talentidOf info.type info.id = some info.talentid) :
    DistinctKeys (fun t : Talent => (t.type, t.id)) (talentSet talents info.type info.id info.refid data) ∧
    sumOf (Talent.worth w x) (talentSet talents info.type info.id info.refid data) =
      sumOf (Talent.worth w x) talents +
        (dataWorth (w.skill info.talentid) info.id x (List.range talentMaximumDataSize) (storedData data) -
          dataWorth (w.skill info.talentid) info.id x (List.range talentMaximumDataSize) (oldData talents info)) := by
  have hworth : ∀ t : Talent, t.type = info.type → t.id = info.id → t.worth w x =
      dataWorth (w.skill info.talentid) info.id x (List.range talentMaximumDataSize) t.data := by
    intro t hty htid
    unfold Talent.worth
    rw [hty, htid, hid]
  unfold talentSet oldData
  rw [if_pos hrange]
  cases hg : talentGet talents info.type info.id with
  | none =>
    simp only [map_none, getD_none]
    refine ⟨hu.snoc hg, ?_⟩
    rw [sumOf_snoc, hworth _ rfl rfl, dataWorth_empty, sub_zero]
  | some t =>
    simp only [map_some, getD_some]
    obtain ⟨hty, htid⟩ := Prod.mk.inj (lookup_some hg).2
    constructor
    · apply DistinctKeys.adjust _ hu
      exact fun _ => rfl
    · rw [sumOf_adjust hu hg, hworth t hty htid, hworth ⟨t.type, t.id, info.refid, storedData data⟩ hty htid]

theorem start_roomy : Roomy (2 * (List.range talentMaximumDataSize).length) TalentTally.start.items where
  room := by decide +kernel
  zero := by
    intro s hs _
    rw [eq_of_mem_replicate hs]

theorem start_slots (uuid : ℕ) : slotSum uuid x TalentTally.start.items = 0 := by
  unfold slotSum TalentTally.start
  generalize talentMaximumDataSize * talentConsumeCount = n
  induction n with
  | zero => rfl
  | succ n ih => rw [replicate_succ, sumOf_cons, ih, about_nothing (.inl rfl), add_zero]

/-! ## Runs of calls -/

/-- What was paid back and what the talents are worth is covered by what was consumed. -/
structure TalentState.Covered (w : TalentWorld) (s : TalentState) : Prop where
  keys : DistinctKeys (fun t : Talent => (t.type, t.id)) s.talents
  covered : ∀ x : Good, x.id ≠ 0 → s.refunded x + sumOf (Talent.worth w x) s.talents ≤ s.consumed x

theorem settle_pays {pid : ℕ} (hpid : aiMaxId < pid) (hw : w.Proper) {s : TalentState} {c : TalentCall}
    {info : TalentInfo} {t : TalentTally} (h : s.Covered w) (hinfo : w.talentInfo c.type c.id c.refid = .ok (some info))
    (ht : talentLoop w info (oldData s.talents info) (newData c.data) = .ok t) (hno : NoOverflow w s c) :
    (s.settle w pid c info t).2.Covered w := by
  unfold TalentState.settle
  split
  · exact h
  · have htakes := fun x hx => @payTalent_takes c.inv x w pid hpid info t hx
    generalize payTalent w pid info t c.inv = r at htakes
    obtain ⟨ret, inv⟩ := r
    simp only
    split
    · refine ⟨h.keys, fun x hx => ?_⟩
      have hcov := h.covered x hx
      have htake := (htakes x hx).1
      simp only at htake ⊢
      omega
    · next hret =>
      obtain ⟨hrange, hid⟩ := TalentOwners.talentInfo_kept hinfo
      refine ⟨(@talentSet_worth w (.item 0) s.talents info c.data h.keys hrange hid).1, fun x hx => ?_⟩
      have hset := (@talentSet_worth w x s.talents info c.data h.keys hrange hid).2
      have hcov := h.covered x hx
      have htake := (htakes x hx).2 (not_ne_iff.mp hret)
      have hslots := @talentLoop_slots info.id x _ info.level (oldData s.talents info) (newData c.data)
        (hw info.talentid) _ _ _ start_roomy ht
      have hsettled := @slots_settled info.id x t.items (hno info t hinfo ht) c.sent
      rw [start_slots, dataWorth_newData] at hslots
      simp only at htake ⊢
      rw [hset]
      omega

theorem talentStep_pays {pid : ℕ} (hpid : aiMaxId < pid) (hw : w.Proper) {s s' : TalentState} {c : TalentCall}
    (h : s.Covered w) (hno : NoOverflow w s c) (hs : talentStep w pid s c = .ok s') : s'.Covered w := by
  obtain ⟨r, hr, hs⟩ := bind_ok_iff.mp hs
  obtain rfl := Except.ok.inj hs
  obtain ⟨info, hinfo, hr⟩ := bind_ok_iff.mp hr
  cases info with
  | none =>
    obtain rfl := Except.ok.inj hr
    exact h
  | some info =>
    simp only at hr
    split at hr
    · obtain rfl := Except.ok.inj hr
      exact h
    · split at hr
      · obtain rfl := Except.ok.inj hr
        exact h
      · cases hr
      · next t ht =>
        obtain rfl := Except.ok.inj hr
        exact settle_pays hpid hw h hinfo ht hno

end Worth

/-- From no talents on, whatever is raised, lowered or moved and whether calls succeed or fail, no more of a
good has been paid back than was consumed. -/
theorem talent_refunds_covered (hpid : aiMaxId < pid) (hw : w.Proper) (calls : List TalentCall)
    (hno : Along (talentStep w pid) (NoOverflow w) .start calls) (s : TalentState)
    (hrun : run (talentStep w pid) .start calls = .ok s) (x : Good) (hx : x.id ≠ 0) : s.refunded x ≤ s.consumed x := by
  have hstart : TalentState.start.Covered w := ⟨nodup_nil, fun _ _ => le_refl 0⟩
  have h := run_preserves (fun _ _ _ hc hn hs => talentStep_pays hpid hw hc hn hs) calls _ s hstart hno hrun
  have hcov := h.covered x hx
  have hworth : 0 ≤ sumOf (Talent.worth w x) s.talents := sumOf_nonneg fun t _ => talent_worth_nonneg hw t
  omega

/-- One hero, whose talent 7 costs 10 of item 5 for the first point and 2 more for every other, half of
which is paid back. -/
def oneTalent : TalentWorld where
  heroConfigs := [⟨3, 1, 30, 7, 8, 9⟩]
  heroConfigIds := nodup_singleton _
  heroConfigPos := by simp
  weaponTalent := fun _ => none
  skillGroups := fun _ => []
  equipConfig := fun _ => false
  heroes := [⟨1, 3, 20, 1, 1⟩]
  heroUuids := nodup_singleton _
  heroOf := fun _ => none
  heroOf_mem := fun _ _ h => by cases h
  equips := fun _ => none
  skill := fun talentid idx =>
    if talentid = 7 ∧ idx = 1 then some ⟨0, 0, 0, 0, 0, 9, 0, 0, ⟨41, 5, 10, 2, 50⟩, ⟨0, 0, 0, 0, 0⟩⟩ else none
  resetCost := none
  packages := fun _ => none

/-- So many points in the first index, with 100 of item 5 at hand. -/
def onePoint (points : ℤ) : TalentCall where
  type := 1
  id := 1
  refid := 3
  data := some ((48 + points) :: List.replicate 44 48)
  inv := ⟨fun _ => some 100, fun _ _ => none, fun _ => 0⟩
  sent := fun _ => true

theorem oneTalent_proper : oneTalent.Proper := by
  intro talentid idx cfg h
  unfold oneTalent at h
  simp only at h
  split at h
  · obtain rfl := some.inj h
    exact ⟨.inr (.inr (by decide)), .inr (.inl (by decide))⟩
  · cases h

theorem onePoint_noOverflow {s : TalentState} {points : ℤ}
    (h : (talentLoop oneTalent ⟨1, 1, 3, 7, 1, 20⟩ (oldData s.talents ⟨1, 1, 3, 7, 1, 20⟩)
      (newData (onePoint points).data)).toOption.all (fun t => t.items.all fun slot =>
        decide (-2 ^ 31 < slot.value ∧ slot.value < 2 ^ 31)) = true) : NoOverflow oneTalent s (onePoint points) := by
  intro info t hinfo ht
  have hone : oneTalent.talentInfo 1 1 3 = .ok (some ⟨1, 1, 3, 7, 1, 20⟩) := rfl
  obtain rfl := some.inj (ok_unique hone hinfo)
  rw [ht] at h
  exact fun slot hs => of_decide_eq_true (all_eq_true.mp h slot hs)

theorem talent_refunds_covered_one : ∃ s, run (talentStep oneTalent 100000) .start [onePoint 3, onePoint 1] = .ok s ∧
    s.consumed (.item 5) = 36 ∧ s.refunded (.item 5) = 13 ∧ s.refunded (.item 5) ≤ s.consumed (.item 5) := by
  have hends : (run (talentStep oneTalent 100000) .start [onePoint 3, onePoint 1]).map (fun s =>
      (s.consumed (.item 5), s.refunded (.item 5))) = .ok (36, 13) := by decide +kernel
  cases hrun : run (talentStep oneTalent 100000) .start [onePoint 3, onePoint 1] with
  | error f =>
    rw [hrun] at hends
    cases hends
  | ok s =>
    rw [hrun] at hends
    obtain ⟨hc, hr⟩ := ok_pair_inj hends
    refine ⟨s, rfl, hc, hr, ?_⟩
    apply talent_refunds_covered oneTalent 100000 (by decide) oneTalent_proper [onePoint 3, onePoint 1] _ s hrun _ (by decide)
    refine ⟨onePoint_noOverflow (by decide +kernel), fun s₁ hs₁ => ⟨onePoint_noOverflow ?_, fun _ _ => trivial⟩⟩
    have htalents : (talentStep oneTalent 100000 .start (onePoint 3)).map TalentState.talents =
        .ok [⟨1, 1, 3, 51 :: List.replicate 44 48⟩] := by decide +kernel
    rw [hs₁] at htalents
    rw [Except.ok.inj htalents]
    decide +kernel

end CServer.Logic
