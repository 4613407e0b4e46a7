import CServer.Lib.Rounding
import CServer.Lib.Exec
import CServer.Lib.Memory

/-! # `battlefield/PetManager.lua`: the health of a group of pets

A pet stands for `count` units, listed by the rounds after which they leave, and has one `hp` for all of them. Numbers are
doubles: counts and healths are integers of them, which are rounded where they are computed, and so are the quotients.

* `hpType` 1: damage goes through the units one after the other; 2: it ends with the first unit; 3: it is shared.
-/
namespace CServer.Fight
open CServer.Lib CServer.Lib.Double List

/-! ## The code -/

structure PetUnits where
  count : ℤ
  cd : ℚ

structure Pet where
  hpType : ℕ
  rawHp : ℤ
  list : List PetUnits
  count : ℤ
  hp : ℤ

def petNew (hpType : ℕ) (rawHp : ℤ) : Pet := ⟨hpType, rawHp, [], 0, 0⟩

variable (p : Pet)

def Pet.clean : Pet := { p with list := [], count := 0, hp := 0 }

def Pet.totalHp : ℤ := if p.count ≤ 0 then 0 else nearestInt (p.rawHp * p.count)

def Pet.firstHp : ℚ :=
  if p.count ≤ 0 then 0
  else if p.hpType = 3 then nearest (p.hp / p.count)
  else nearestInt (p.hp - nearestInt (p.rawHp * nearestInt (p.count - 1)))

def addUnits (n : ℤ) (cd : ℚ) : List PetUnits → List PetUnits
  | [] => [⟨n, cd⟩]
  | v :: rest => if v.cd = cd then { v with count := nearestInt (v.count + n) } :: rest else v :: addUnits n cd rest

def Pet.add (n : ℤ) (cd : ℚ) : Pet :=
  { p with
    list := addUnits n cd p.list
    count := nearestInt (p.count + n)
    hp := nearestInt (p.hp + nearestInt (p.rawHp * n)) }

/-- The loop of `Pet:Remove`, from the front of the list: the rest of it, and `count`. -/
def removeUnits : List PetUnits → ℤ → ℤ → List PetUnits × ℤ
  | [], _, count => ([], count)
  | info :: rest, n, count =>
    if n > 0 then
      if info.count > n then ({ info with count := nearestInt (info.count - n) } :: rest, nearestInt (count - n))
      else removeUnits rest (nearestInt (n - info.count)) (nearestInt (count - info.count))
    else (info :: rest, count)

def Pet.remove (n : ℤ) (notChangeHP : Bool) : Pet :=
  if n ≤ 0 then p
  else if n ≥ p.count then p.clean
  else
    match removeUnits p.list n p.count with
    | (list, count) =>
      { p with
        list := list
        count := count
        hp :=
          if notChangeHP then p.hp
          else if p.hpType = 3 then ⌈nearest (p.hp * nearest (count / p.count))⌉
          else nearestInt (p.rawHp * count) }

def Pet.aged : List PetUnits := p.list.map fun v => { v with cd := nearest (v.cd - 1) }

/-- `removeCount` of `Pet:NextRound`: the units whose rounds are over. -/
def Pet.removeCount (p : Pet) : ℤ :=
  p.aged.foldl (fun removeCount v => if v.cd ≠ 0 then removeCount else nearestInt (removeCount + v.count)) 0

def Pet.leftCount : ℤ := nearestInt (p.count - p.removeCount)

def Pet.nextRound : Pet :=
  if p.leftCount ≤ 0 then p.clean
  else
    { p with
      list := p.aged.filter fun v => v.cd ≠ 0
      count := p.leftCount
      hp :=
        if p.hpType = 3 then ⌈nearest (nearestInt (p.hp * p.leftCount) / p.count)⌉
        else if p.aged.head?.any fun v => v.cd = 0 then nearestInt (p.rawHp * p.leftCount)
        else nearestInt (p.hp - nearestInt (p.rawHp * p.removeCount)) }

def Pet.health (value : ℤ) : Pet :=
  if nearestInt (p.hp + value) > p.totalHp then { p with hp := p.totalHp } else { p with hp := nearestInt (p.hp + value) }

def Pet.hurt (value : ℤ) : Pet :=
  if p.hpType = 1 then
    if value ≥ p.hp then p.clean
    else
      let p := { p with hp := nearestInt (p.hp - value) }
      p.remove (nearestInt (p.count - ⌈nearest (p.hp / p.rawHp)⌉)) true
  else if p.hpType = 2 then
    if (value : ℚ) ≥ p.firstHp then p.remove 1 false else { p with hp := nearestInt (p.hp - value) }
  else if p.hpType = 3 then
    let p := { p with hp := nearestInt (p.hp - value) }
    if p.hp ≤ 0 then p.clean else p
  else p

/-! ## Calls -/

inductive PetCall
  | add (n : ℤ) (cd : ℚ)
  | remove (n : ℤ)
  | hurt (value : ℤ)
  | health (value : ℤ)
  | nextRound

def petStep : PetCall → Except Fault Pet
  | .add n cd => .ok (p.add n cd)
  | .remove n => .ok (p.remove n false)
  | .hurt value => .ok (p.hurt value)
  | .health value => .ok (p.health value)
  | .nextRound => .ok p.nextRound

/-- The amounts are as the claims of the callers are: at least one unit is added, and no amount is negative. -/
def Amounts : PetCall → Prop
  | .add n _ => 1 ≤ n
  | .remove n => 0 ≤ n
  | .hurt value => 0 ≤ value
  | .health value => 0 ≤ value
  | .nextRound => True

structure Healthy (p : Pet) : Prop where
  count : p.count = (p.list.map PetUnits.count).sum
  zero : p.hp = 0 ↔ p.count = 0
  le : p.hp ≤ p.rawHp * p.count
  last : p.hpType = 1 ∨ p.hpType = 2 → 0 < p.count → p.rawHp * (p.count - 1) < p.hp
  first : 0 < p.count → 0 < p.firstHp ∧ p.firstHp ≤ p.rawHp

/-- The healths that are added are doubles. A removal of a part of the units from a shared health takes it to the quotient
of the counts, rounded to a double, and its product with the health must be near enough to full health; where units leave
after a round, the product of the health and the count, rounded to a double, must be. -/
def Exact : PetCall → Prop
  | .add n _ => p.rawHp * (p.count + n) < 2 ^ 53
  | .remove n => p.hpType = 3 → 0 < n → n < p.count →
      Near (p.hp * nearest ((p.count - n : ℤ) / p.count)) (p.rawHp * (p.count - n))
  | .nextRound => p.hpType = 3 → 0 < p.leftCount →
      Near (nearestInt (p.hp * p.leftCount) / p.count) (p.rawHp * p.leftCount)
  | _ => True

/-! ## Units -/

def unitsSum (l : List PetUnits) : ℤ := (l.map PetUnits.count).sum

@[simp] theorem unitsSum_nil : unitsSum [] = 0 := rfl

@[simp] theorem unitsSum_cons (v : PetUnits) (l : List PetUnits) : unitsSum (v :: l) = v.count + unitsSum l := rfl

theorem unitsSum_nonneg {l : List PetUnits} (h : ∀ v ∈ l, 0 < v.count) : 0 ≤ unitsSum l :=
  sum_nonneg fun z hz => by
    obtain ⟨v, hv, rfl⟩ := mem_map.mp hz
    exact (h v hv).le

theorem nearestInt_small {z : ℤ} (hlo : 0 ≤ z) (hhi : z < 2 ^ 53) : nearestInt z = z :=
  nearestInt_of_lt (abs_lt.mpr ⟨by omega, hhi⟩)

theorem addUnits_spec {n : ℤ} (hn : 1 ≤ n) (cd : ℚ) {l : List PetUnits} (hpos : ∀ v ∈ l, 0 < v.count)
    (hfit : unitsSum l + n < 2 ^ 53) :
    unitsSum (addUnits n cd l) = unitsSum l + n ∧ ∀ v ∈ addUnits n cd l, 0 < v.count := by
  induction l with
  | nil =>
    refine ⟨by simp [addUnits], fun v hv => ?_⟩
    obtain rfl := mem_singleton.mp hv
    exact hn
  | cons v l ih =>
    obtain ⟨hv, hl⟩ := forall_mem_cons.mp hpos
    have hrest := unitsSum_nonneg hl
    rw [unitsSum_cons] at hfit
    unfold addUnits
    split
    · rw [nearestInt_small (by omega) (by omega)]
      refine ⟨by rw [unitsSum_cons, unitsSum_cons]; ring, forall_mem_cons.mpr ⟨?_, hl⟩⟩
      change 0 < v.count + n
      omega
    · obtain ⟨hsum, hadded⟩ := ih hl (by omega)
      refine ⟨by rw [unitsSum_cons, unitsSum_cons, hsum]; ring, forall_mem_cons.mpr ⟨hv, hadded⟩⟩

theorem removeUnits_spec {l : List PetUnits} : ∀ {n count : ℤ}, (∀ v ∈ l, 0 < v.count) → 0 ≤ n → n < unitsSum l →
    count = unitsSum l → count < 2 ^ 53 → (removeUnits l n count).2 = count - n ∧
      unitsSum (removeUnits l n count).1 = count - n ∧ ∀ v ∈ (removeUnits l n count).1, 0 < v.count := by
  induction l with
  | nil =>
    intro n count _ hn hlt _ _
    rw [unitsSum_nil] at hlt
    omega
  | cons info rest ih =>
    intro n count hpos hn hlt hcount hfit
    obtain ⟨hinfo, hrest⟩ := forall_mem_cons.mp hpos
    have hsum := unitsSum_nonneg hrest
    rw [unitsSum_cons] at hlt hcount
    unfold removeUnits
    split
    · split
      · rw [nearestInt_small (by omega) (by omega), nearestInt_small (by omega) (by omega)]
        refine ⟨rfl, ?_, forall_mem_cons.mpr ⟨?_, hrest⟩⟩
        · rw [unitsSum_cons, hcount]
          ring
        · change 0 < info.count - n
          omega
      · rw [nearestInt_small (by omega) (by omega), nearestInt_small (by omega) (by omega)]
        obtain ⟨hleft, hlist, hkept⟩ := @ih (n - info.count) (count - info.count) hrest (by omega) (by omega)
          (by omega) (by omega)
        exact ⟨by rw [hleft]; ring, by rw [hlist]; ring, hkept⟩
    · obtain rfl : n = 0 := by omega
      exact ⟨(sub_zero count).symm, by rw [unitsSum_cons, hcount, sub_zero], hpos⟩

theorem removeCount_spec {l : List PetUnits} : ∀ {removeCount : ℤ}, (∀ v ∈ l, 0 < v.count) → 0 ≤ removeCount →
    removeCount + unitsSum l < 2 ^ 53 →
      l.foldl (fun removeCount v => if v.cd ≠ 0 then removeCount else nearestInt (removeCount + v.count)) removeCount +
        unitsSum (l.filter fun v => v.cd ≠ 0) = removeCount + unitsSum l ∧
      removeCount ≤
        l.foldl (fun removeCount v => if v.cd ≠ 0 then removeCount else nearestInt (removeCount + v.count)) removeCount := by
  induction l with
  | nil => exact fun _ _ _ => ⟨rfl, le_rfl⟩
  | cons v l ih =>
    intro removeCount hpos hlo hfit
    obtain ⟨hv, hl⟩ := forall_mem_cons.mp hpos
    have hsum := unitsSum_nonneg hl
    rw [unitsSum_cons] at hfit
    rw [foldl_cons, unitsSum_cons]
    by_cases hcd : v.cd ≠ 0
    · rw [if_pos hcd, filter_cons_of_pos (by simpa using hcd), unitsSum_cons]
      obtain ⟨hrest, hmore⟩ := ih hl hlo (by omega)
      exact ⟨by omega, hmore⟩
    · rw [if_neg hcd, filter_cons_of_neg (by simpa using hcd), nearestInt_small (by omega) (by omega)]
      obtain ⟨hrest, hmore⟩ := @ih (removeCount + v.count) hl (by omega) (by omega)
      exact ⟨by rw [hrest]; ring, by omega⟩

/-! ## The invariant -/

variable {p : Pet} {n value : ℤ}

/-- Only a shared health can be below what the units after the first have. -/
structure Pet.Kept (p : Pet) : Prop where
  raw : 0 < p.rawHp
  fit : p.rawHp * p.count < 2 ^ 53
  units : ∀ v ∈ p.list, 0 < v.count
  sum : p.count = unitsSum p.list
  zero : p.hp = 0 ↔ p.count = 0
  le : p.hp ≤ p.rawHp * p.count
  last : p.hpType ≠ 3 → 0 < p.count → p.rawHp * (p.count - 1) < p.hp
  nonneg : 0 ≤ p.hp

namespace Pet.Kept

theorem count_nonneg (h : p.Kept) : 0 ≤ p.count := h.sum ▸ unitsSum_nonneg h.units

theorem count_lt (h : p.Kept) : p.count < 2 ^ 53 := by
  have hraw := h.raw
  have hcount := h.count_nonneg
  have hfit := h.fit
  nlinarith

theorem hp_lt (h : p.Kept) : p.hp < 2 ^ 53 := h.le.trans_lt h.fit

theorem hp_pos (h : p.Kept) (hcount : 0 < p.count) : 0 < p.hp := by
  have hzero := h.zero
  have hnonneg := h.nonneg
  omega

theorem raw_mul {m : ℤ} (h : p.Kept) (hm : 0 ≤ m) (hle : m ≤ p.count) :
    0 ≤ p.rawHp * m ∧ p.rawHp * m < 2 ^ 53 :=
  ⟨mul_nonneg h.raw.le hm, (mul_le_mul_of_nonneg_left hle h.raw.le).trans_lt h.fit⟩

theorem clean (h : p.Kept) : p.clean.Kept := by
  refine ⟨h.raw, ?_, nofun, rfl, Iff.rfl, ?_, fun _ hcount => absurd hcount (lt_irrefl _), le_rfl⟩
  · change p.rawHp * 0 < 2 ^ 53
    norm_num
  · exact (mul_zero p.rawHp).ge

theorem totalHp_eq (h : p.Kept) : p.totalHp = p.rawHp * p.count := by
  have hcount := h.count_nonneg
  unfold Pet.totalHp
  split
  · obtain hzero : p.count = 0 := by omega
    rw [hzero, mul_zero]
  · obtain ⟨hlo, hhi⟩ := h.raw_mul hcount le_rfl
    exact nearestInt_small hlo hhi

theorem firstHp_eq (h : p.Kept) (htype : p.hpType ≠ 3) (hcount : 0 < p.count) :
    p.firstHp = (p.hp - p.rawHp * (p.count - 1) : ℤ) := by
  obtain ⟨hlo, hhi⟩ := h.raw_mul (m := p.count - 1) (by omega) (by omega)
  have hlast := h.last htype hcount
  have hlt := h.hp_lt
  have hcountLt := h.count_lt
  rw [Pet.firstHp, if_neg (by omega), if_neg htype, nearestInt_small (z := p.count - 1) (by omega) (by omega),
    nearestInt_small hlo hhi, nearestInt_small (by omega) (by omega)]

theorem first (h : p.Kept) (hcount : 0 < p.count) : 0 < p.firstHp ∧ p.firstHp ≤ p.rawHp := by
  have hle := h.le
  by_cases htype : p.hpType = 3
  · have hcountq : (0 : ℚ) < p.count := by exact_mod_cast hcount
    have hhp : (0 : ℚ) < p.hp := by exact_mod_cast h.hp_pos hcount
    have hraw : p.rawHp < 2 ^ 53 := by
      have hfit := h.fit
      have hpos := h.raw
      nlinarith
    rw [Pet.firstHp, if_neg (by omega), if_pos htype]
    refine ⟨nearest_pos (div_pos hhp hcountq), nearest_le_intCast h.raw.le hraw ?_⟩
    rw [div_le_iff₀ hcountq]
    exact_mod_cast hle
  · have hlast := h.last htype hcount
    rw [h.firstHp_eq htype hcount]
    refine ⟨by exact_mod_cast (by omega : (0 : ℤ) < p.hp - p.rawHp * (p.count - 1)), ?_⟩
    have hone : p.rawHp * (p.count - 1) = p.rawHp * p.count - p.rawHp := by ring
    exact_mod_cast (by omega : p.hp - p.rawHp * (p.count - 1) ≤ p.rawHp)

theorem healthy (h : p.Kept) : Healthy p where
  count := h.sum
  zero := h.zero
  le := h.le
  last := fun htype hcount => h.last (by omega) hcount
  first := h.first

theorem left {list : List PetUnits} {count hp : ℤ} (h : p.Kept) (hunits : ∀ v ∈ list, 0 < v.count)
    (hsum : count = unitsSum list) (hcount : 0 < count) (hcountLe : count ≤ p.count) (hpos : 0 < hp)
    (hle : hp ≤ p.rawHp * count) (hlast : p.hpType ≠ 3 → p.rawHp * (count - 1) < hp) :
    Pet.Kept { p with list := list, count := count, hp := hp } :=
  ⟨h.raw, (h.raw_mul hcount.le hcountLe).2, hunits, hsum, iff_of_false hpos.ne' hcount.ne', hle, fun htype _ => hlast htype,
    hpos.le⟩

/-! ## Operations -/

theorem add (h : p.Kept) (hn : 1 ≤ n) (cd : ℚ) (hfit : p.rawHp * (p.count + n) < 2 ^ 53) : (p.add n cd).Kept := by
  have hraw := h.raw
  have hcount := h.count_nonneg
  have hle := h.le
  have hnonneg := h.nonneg
  have hsplit : p.rawHp * (p.count + n) = p.rawHp * p.count + p.rawHp * n := by ring
  have hadded : p.rawHp ≤ p.rawHp * n := by nlinarith
  have hhad : 0 ≤ p.rawHp * p.count := mul_nonneg hraw.le hcount
  have hcountFit : p.count + n < 2 ^ 53 := by nlinarith
  obtain ⟨hsum, hunits⟩ := addUnits_spec hn cd h.units (h.sum ▸ hcountFit)
  have hcountEq : nearestInt (p.count + n) = p.count + n := nearestInt_small (by omega) hcountFit
  have hhpEq : nearestInt (p.hp + nearestInt (p.rawHp * n)) = p.hp + p.rawHp * n := by
    rw [nearestInt_small (z := p.rawHp * n) (by omega) (by omega), nearestInt_small (by omega) (by omega)]
  unfold Pet.add
  rw [hcountEq, hhpEq]
  refine ⟨hraw, hfit, hunits, ?_, ?_, ?_, fun htype _ => ?_, ?_⟩
  · change p.count + n = unitsSum (addUnits n cd p.list)
    rw [hsum, h.sum]
  · change p.hp + p.rawHp * n = 0 ↔ p.count + n = 0
    omega
  · change p.hp + p.rawHp * n ≤ p.rawHp * (p.count + n)
    omega
  · change p.rawHp * (p.count + n - 1) < p.hp + p.rawHp * n
    have hone : p.rawHp * (p.count + n - 1) = p.rawHp * (p.count - 1) + p.rawHp * n := by ring
    rw [hone]
    rcases hcount.eq_or_lt with hzero | hpos
    · rw [← hzero] at *
      omega
    · have hlast := h.last htype hpos
      omega
  · change 0 ≤ p.hp + p.rawHp * n
    omega

theorem health (h : p.Kept) (hvalue : 0 ≤ value) : (p.health value).Kept := by
  have hle := h.le
  have hnonneg := h.nonneg
  have hzero := h.zero
  have hcount := h.count_nonneg
  have hfit := h.fit
  have hmore : ∀ hp, p.hp ≤ hp → hp ≤ p.rawHp * p.count → Pet.Kept { p with hp := hp } := by
    intro hp hpLe hpFull
    refine ⟨h.raw, hfit, h.units, h.sum, ?_, hpFull, fun htype hpos => (h.last htype hpos).trans_le hpLe, hnonneg.trans hpLe⟩
    change hp = 0 ↔ p.count = 0
    constructor
    · intro h0
      exact hzero.mp (by omega)
    · intro h0
      rw [h0, mul_zero] at hpFull
      omega
  unfold Pet.health
  rw [h.totalHp_eq]
  split
  · exact hmore _ hle le_rfl
  · rename_i hnot
    have hsmall : p.hp + value < 2 ^ 53 := by
      by_contra hbig
      have hround := le_nearestInt (not_lt.mp hbig)
      omega
    rw [nearestInt_small (by omega) hsmall] at hnot ⊢
    exact hmore _ (by omega) (by omega)

theorem remove_part (h : p.Kept) (hn : 0 < n) (hlt : n < p.count) (hp : ℤ) (notChangeHP : Bool) :
    ∃ list, (∀ v ∈ list, 0 < v.count) ∧ p.count - n = unitsSum list ∧
      Pet.remove { p with hp := hp } n notChangeHP =
        { p with
          list := list
          count := p.count - n
          hp :=
            if notChangeHP then hp
            else if p.hpType = 3 then ⌈nearest (hp * nearest ((p.count - n : ℤ) / p.count))⌉
            else p.rawHp * (p.count - n) } := by
  have hsum := h.sum
  obtain ⟨hcount, hlist, hunits⟩ := removeUnits_spec h.units hn.le (by omega) hsum h.count_lt
  obtain ⟨hlo, hhi⟩ := h.raw_mul (m := p.count - n) (by omega) (by omega)
  refine ⟨_, hunits, hlist.symm, ?_⟩
  rw [Pet.remove, if_neg (by omega), if_neg (not_le.mpr hlt)]
  simp only [hcount, nearestInt_small hlo hhi]

theorem share_pos (h : p.Kept) (hn : 0 < n) (hlt : n < p.count) :
    0 < (p.hp : ℚ) * nearest ((p.count - n : ℤ) / p.count) := by
  have hhp : (0 : ℚ) < p.hp := by exact_mod_cast h.hp_pos (by omega)
  have hcount : (0 : ℚ) < p.count := by exact_mod_cast (by omega : 0 < p.count)
  have hleft : (0 : ℚ) < (p.count - n : ℤ) := by exact_mod_cast (by omega : 0 < p.count - n)
  exact mul_pos hhp (nearest_pos (div_pos hleft hcount))

theorem remove (h : p.Kept) (hn : 0 ≤ n) (hexact : Exact p (.remove n)) : (p.remove n false).Kept := by
  rcases hn.eq_or_lt with rfl | hpos
  · rw [Pet.remove, if_pos le_rfl]
    exact h
  by_cases hall : n ≥ p.count
  · rw [Pet.remove, if_neg (by omega), if_pos hall]
    exact h.clean
  · have hlt := not_le.mp hall
    obtain ⟨list, hunits, hsum, heq⟩ := h.remove_part hpos hlt p.hp false
    have hfull : 0 < p.rawHp * (p.count - n) := mul_pos h.raw (by omega)
    obtain ⟨-, hhi⟩ := h.raw_mul (m := p.count - n) (by omega) (by omega)
    refine heq ▸ ?_
    simp only [Bool.false_eq_true, if_false]
    by_cases htype : p.hpType = 3
    · rw [if_pos htype]
      have hshare := h.share_pos hpos hlt
      have hnear := (nearest_le_intCast_iff hshare hfull hhi).mpr (by exact_mod_cast hexact htype hpos hlt)
      exact h.left hunits hsum (by omega) (by omega) (Int.ceil_pos.mpr (nearest_pos hshare)) (Int.ceil_le.mpr hnear)
        fun hno => absurd htype hno
    · rw [if_neg htype]
      refine h.left hunits hsum (by omega) (by omega) hfull le_rfl fun _ => ?_
      exact mul_lt_mul_of_pos_left (by omega) h.raw

end Pet.Kept

/-- A removal of a part of the units from a shared health leaves no more than full health exactly if the product with the
quotient of the counts, rounded to a double, is near enough to it. -/
theorem remove_shared_iff (h : p.Kept) (htype : p.hpType = 3) (hn : 0 < n) (hlt : n < p.count) :
    (p.remove n false).hp ≤ p.rawHp * (p.remove n false).count ↔
      Near (p.hp * nearest ((p.count - n : ℤ) / p.count)) (p.rawHp * (p.count - n)) := by
  obtain ⟨list, -, -, heq⟩ := h.remove_part hn hlt p.hp false
  change p.remove n false = _ at heq
  have hfull : 0 < p.rawHp * (p.count - n) := mul_pos h.raw (by omega)
  obtain ⟨-, hhi⟩ := h.raw_mul (m := p.count - n) (by omega) (by omega)
  rw [heq]
  simp only [Bool.false_eq_true, if_false, if_pos htype]
  rw [Int.ceil_le, nearest_le_intCast_iff (h.share_pos hn hlt) hfull hhi]

namespace Pet.Kept

theorem ceil_spec {a b : ℤ} (hb : 0 < b) : b * (⌈(a : ℚ) / b⌉ - 1) < a ∧ a ≤ b * ⌈(a : ℚ) / b⌉ := by
  have hbq : (0 : ℚ) < b := by exact_mod_cast hb
  obtain ⟨hlo, hhi⟩ := Int.ceil_eq_iff.mp (rfl : ⌈(a : ℚ) / b⌉ = _)
  constructor
  · have hmul := (lt_div_iff₀ hbq).mp hlo
    rw [mul_comm]
    exact_mod_cast hmul
  · have hmul := (div_le_iff₀ hbq).mp hhi
    rw [mul_comm]
    exact_mod_cast hmul

theorem hurt_through (h : p.Kept) (hvalue : 0 ≤ value) (hlt : value < p.hp) :
    (Pet.remove { p with hp := p.hp - value }
      (nearestInt (p.count - ⌈nearest ((p.hp - value : ℤ) / p.rawHp)⌉)) true).Kept := by
  have hraw := h.raw
  have hle := h.le
  have hhp := h.hp_lt
  have hcount := h.count_nonneg
  have hcountLt := h.count_lt
  rw [ceil_nearest_div (by omega) (by omega) hraw]
  obtain ⟨hlo, hhi⟩ := ceil_spec (a := p.hp - value) hraw
  generalize ⌈((p.hp - value : ℤ) : ℚ) / p.rawHp⌉ = k at hlo hhi ⊢
  have hkpos : 0 < k := by
    by_contra hk
    have hprod : p.rawHp * k ≤ 0 := mul_nonpos_of_nonneg_of_nonpos hraw.le (by omega)
    omega
  have hkle : k ≤ p.count := by
    by_contra hk
    have hprod : p.rawHp * p.count ≤ p.rawHp * (k - 1) := mul_le_mul_of_nonneg_left (by omega) hraw.le
    omega
  have hone : p.rawHp * (k - 1) = p.rawHp * k - p.rawHp := by ring
  rw [nearestInt_small (by omega) (by omega)]
  rcases hkle.eq_or_lt with rfl | hklt
  · rw [sub_self, Pet.remove, if_pos le_rfl]
    refine ⟨hraw, h.fit, h.units, h.sum, iff_of_false ?_ hkpos.ne', hhi, fun _ _ => hlo, ?_⟩
    · change p.hp - value ≠ 0
      omega
    · change 0 ≤ p.hp - value
      omega
  · obtain ⟨list, hunits, hsum, heq⟩ := h.remove_part (n := p.count - k) (by omega) (by omega) (p.hp - value) true
    rw [sub_sub_cancel] at hsum heq
    rw [heq]
    simp only [if_true]
    exact h.left hunits hsum hkpos hkle (by omega) hhi fun _ => hlo

theorem hurt_first (h : p.Kept) (htype : p.hpType ≠ 3) (hcount : 0 < p.count) (hvalue : 0 ≤ value)
    (hlt : (value : ℚ) < p.firstHp) : Pet.Kept { p with hp := nearestInt (p.hp - value) } := by
  rw [h.firstHp_eq htype hcount] at hlt
  have hlast : p.rawHp * (p.count - 1) < p.hp - value := by
    have hcast := Int.cast_lt.mp hlt
    omega
  obtain ⟨hlo, -⟩ := h.raw_mul (m := p.count - 1) (by omega) (by omega)
  have hle := h.le
  have hhp := h.hp_lt
  rw [nearestInt_small (by omega) (by omega)]
  refine ⟨h.raw, h.fit, h.units, h.sum, iff_of_false ?_ hcount.ne', ?_, fun _ _ => hlast, ?_⟩
  · change p.hp - value ≠ 0
    omega
  · change p.hp - value ≤ p.rawHp * p.count
    omega
  · change 0 ≤ p.hp - value
    omega

theorem hurt_shared (h : p.Kept) (htype : p.hpType = 3) (hvalue : 0 ≤ value) (hpos : 0 < nearestInt (p.hp - value)) :
    Pet.Kept { p with hp := nearestInt (p.hp - value) } := by
  have hrest : 0 < p.hp - value := by
    by_contra hle
    exact absurd (nearestInt_nonpos (not_lt.mp hle)) (by omega)
  have hhp := h.hp_lt
  have hle := h.le
  have hcount : p.count ≠ 0 := fun hzero => by
    have hp0 := h.zero.mpr hzero
    omega
  rw [nearestInt_small hrest.le (by omega)] at hpos ⊢
  refine ⟨h.raw, h.fit, h.units, h.sum, iff_of_false hpos.ne' hcount, ?_, fun hno => absurd htype hno, hrest.le⟩
  change p.hp - value ≤ p.rawHp * p.count
  omega

theorem hurt (h : p.Kept) (hvalue : 0 ≤ value) : (p.hurt value).Kept := by
  unfold Pet.hurt
  split
  · split
    · exact h.clean
    · rename_i hlt
      have hhp := h.hp_lt
      have hrest : nearestInt (p.hp - value) = p.hp - value := nearestInt_small (by omega) (by omega)
      simp only [hrest]
      exact h.hurt_through hvalue (not_le.mp hlt)
  split
  · rename_i htype
    split
    · exact h.remove zero_le_one fun hthree => absurd (htype.symm.trans hthree) (by decide)
    · rename_i hlt
      have hnonneg := h.count_nonneg
      have hcount : 0 < p.count := by
        by_contra hzero
        rw [Pet.firstHp, if_pos (not_lt.mp hzero)] at hlt
        exact hlt (by exact_mod_cast hvalue)
      exact h.hurt_first (by omega) hcount hvalue (not_le.mp hlt)
  split
  · rename_i htype
    simp only
    split
    · exact h.clean
    · rename_i hpos
      exact h.hurt_shared htype hvalue (not_le.mp hpos)
  · exact h

theorem round_units (h : p.Kept) : p.removeCount + unitsSum (p.aged.filter fun v => v.cd ≠ 0) = p.count ∧
    0 ≤ p.removeCount ∧ ∀ v ∈ p.aged, 0 < v.count := by
  have haged : unitsSum p.aged = p.count := by
    rw [h.sum, Pet.aged, unitsSum, unitsSum, map_map]
    rfl
  have hunits : ∀ v ∈ p.aged, 0 < v.count := by
    intro v hv
    obtain ⟨w, hw, rfl⟩ := mem_map.mp hv
    exact h.units w hw
  have hcountLt := h.count_lt
  obtain ⟨hspec, hnonneg⟩ := removeCount_spec hunits le_rfl (by omega)
  rw [zero_add, haged] at hspec
  exact ⟨hspec, hnonneg, hunits⟩

theorem nextRound (h : p.Kept) (hexact : Exact p .nextRound) : p.nextRound.Kept := by
  obtain ⟨hsplit, hremoved, haged⟩ := h.round_units
  have hkept : ∀ v ∈ p.aged.filter fun v => v.cd ≠ 0, 0 < v.count := fun v hv => haged v (mem_of_mem_filter hv)
  have hstay := unitsSum_nonneg hkept
  have hcountLt := h.count_lt
  have hleft : p.leftCount = p.count - p.removeCount := nearestInt_small (by omega) (by omega)
  unfold Pet.nextRound
  split
  · exact h.clean
  rename_i hpos
  have hcount : 0 < p.count := by omega
  have hle : p.leftCount ≤ p.count := by omega
  have hsum : p.leftCount = unitsSum (p.aged.filter fun v => v.cd ≠ 0) := by omega
  obtain ⟨-, hfullLt⟩ := h.raw_mul (m := p.leftCount) (by omega) hle
  have hfull : 0 < p.rawHp * p.leftCount := mul_pos h.raw (by omega)
  by_cases htype : p.hpType = 3
  · have hcountq : (0 : ℚ) < p.count := by exact_mod_cast hcount
    have hprod : 0 < nearestInt (p.hp * p.leftCount) := nearestInt_pos (mul_pos (h.hp_pos hcount) (by omega))
    have hshare : (0 : ℚ) < nearestInt (p.hp * p.leftCount) / p.count := div_pos (by exact_mod_cast hprod) hcountq
    have hnear := (nearest_le_intCast_iff hshare hfull hfullLt).mpr (hexact htype (by omega))
    rw [if_pos htype]
    exact h.left hkept hsum (by omega) hle (Int.ceil_pos.mpr (nearest_pos hshare)) (Int.ceil_le.mpr hnear)
      fun hno => absurd htype hno
  · have hlast := h.last htype hcount
    have hbelow : p.rawHp * (p.leftCount - 1) < p.rawHp * p.leftCount := mul_lt_mul_of_pos_left (by omega) h.raw
    rw [if_neg htype]
    split
    · rw [nearestInt_small hfull.le hfullLt]
      exact h.left hkept hsum (by omega) hle hfull le_rfl fun _ => hbelow
    · obtain ⟨hgone, hgoneLt⟩ := h.raw_mul hremoved (by omega)
      have hsplitHp : p.rawHp * p.leftCount = p.rawHp * p.count - p.rawHp * p.removeCount := by rw [hleft]; ring
      have hone : p.rawHp * (p.leftCount - 1) = p.rawHp * (p.count - 1) - p.rawHp * p.removeCount := by rw [hleft]; ring
      have hnonneg : 0 ≤ p.rawHp * (p.leftCount - 1) := mul_nonneg h.raw.le (by omega)
      have hhp := h.hp_lt
      have hle' := h.le
      rw [nearestInt_small hgone hgoneLt, nearestInt_small (by omega) (by omega)]
      exact h.left hkept hsum (by omega) hle (by omega) (by omega) fun _ => by omega

end Pet.Kept

/-! ## Runs -/

theorem petKept_new {hpType : ℕ} {rawHp : ℤ} (hraw : 0 < rawHp) : (petNew hpType rawHp).Kept :=
  ⟨hraw, by rw [petNew, mul_zero]; norm_num, nofun, rfl, Iff.rfl, (mul_zero rawHp).ge,
    fun _ hcount => absurd hcount (lt_irrefl _), le_rfl⟩

theorem petKept_step {p' : Pet} {c : PetCall} (h : p.Kept) (hc : Amounts c ∧ Exact p c) (hs : petStep p c = .ok p') :
    p'.Kept := by
  obtain ⟨hamount, hexact⟩ := hc
  cases c with
  | add n cd =>
    obtain rfl := Except.ok.inj hs
    exact h.add hamount cd hexact
  | remove n =>
    obtain rfl := Except.ok.inj hs
    exact h.remove hamount hexact
  | hurt value =>
    obtain rfl := Except.ok.inj hs
    exact h.hurt hamount
  | health value =>
    obtain rfl := Except.ok.inj hs
    exact h.health hamount
  | nextRound =>
    obtain rfl := Except.ok.inj hs
    exact h.nextRound hexact

/-- The healths of a group of pets after every call of every run in which the numbers are near enough. -/
theorem petHealth (hpType : ℕ) (rawHp : ℤ) (hraw : 0 < rawHp) (calls : List PetCall) (hamounts : ∀ c ∈ calls, Amounts c)
    (hexact : Along petStep Exact (petNew hpType rawHp) calls) : Throughout petStep Healthy (petNew hpType rawHp) calls :=
  run_throughout (fun _ h => Pet.Kept.healthy h) (fun _ _ _ h hc hs => petKept_step h hc hs) calls _ (petKept_new hraw)
    ((along_of_forall calls _ hamounts).and hexact)

theorem petNew_add {hpType : ℕ} {rawHp : ℤ} (hraw : 0 < rawHp) (hn : 1 ≤ n) (cd : ℚ) (hfit : rawHp * n < 2 ^ 53) :
    (petNew hpType rawHp).add n cd = ⟨hpType, rawHp, [⟨n, cd⟩], n, rawHp * n⟩ := by
  have hpos : 0 < rawHp * n := mul_pos hraw (by omega)
  have hlt : n < 2 ^ 53 := by nlinarith
  rw [petNew, Pet.add, zero_add, zero_add, nearestInt_small (by omega) hlt, nearestInt_small hpos.le hfit,
    nearestInt_small hpos.le hfit]
  rfl

def halved : List PetCall := [.add 4 (-1), .remove 2]

theorem petHealth_halved : Throughout petStep Healthy (petNew 3 10) halved := by
  refine petHealth 3 10 (by norm_num) halved ?_ ⟨?_, fun p hp => ⟨?_, fun _ _ => trivial⟩⟩
  · simp [halved, Amounts]
  · norm_num [Exact, petNew]
  · obtain rfl := Except.ok.inj hp
    rw [petNew_add (by norm_num) (by norm_num) _ (by norm_num)]
    intro _ _ _
    have hhalf : nearest (((4 - 2 : ℤ) : ℚ) / (4 : ℤ)) = (2 ^ 52 : ℤ) * 2 ^ ((-1 : ℤ) - 52) :=
      nearest_eq (by norm_num) (by norm_num) (by norm_num)
    simp only [hhalf]
    have hspacing := spacing_pos ((10 * (4 - 2) : ℤ) : ℚ)
    refine .inl ?_
    norm_num at hspacing ⊢
    exact hspacing

/-- A hundred units with a health of 1 each that is shared, of which seven are left, have a health of 8. -/
theorem petHealth_lifted : (∀ c ∈ [PetCall.add 100 (-1), .remove 93], Amounts c) ∧
    ¬ Throughout petStep Healthy (petNew 3 1) [.add 100 (-1), .remove 93] := by
  refine ⟨by simp [Amounts], fun h => ?_⟩
  have hkept : Pet.Kept ⟨3, 1, [⟨100, -1⟩], 100, 1 * 100⟩ := by
    have hadd := (petKept_new one_pos : (petNew 3 1).Kept).add (n := 100) (by norm_num) (-1) (by norm_num [petNew])
    rwa [petNew_add one_pos (by norm_num) _ (by norm_num)] at hadd
  have hlast := ((h.2 _ rfl).2 _ rfl).le
  rw [petNew_add one_pos (by norm_num) _ (by norm_num)] at hlast
  have hnear := (remove_shared_iff (n := 93) hkept rfl (by norm_num) (by norm_num)).mp hlast
  have hquotient : nearest (((100 - 93 : ℤ) : ℚ) / (100 : ℤ)) = (5044031582654956 : ℤ) * 2 ^ ((-4 : ℤ) - 52) :=
    nearest_eq (by norm_num) (by norm_num) (by norm_num [abs_lt])
  have hspacing : spacing ((1 * (100 - 93) : ℤ) : ℚ) = 2 ^ ((2 : ℤ) - 52) := spacing_eq (by norm_num) (by norm_num)
  simp only [Near, hquotient, hspacing] at hnear
  norm_num at hnear

end CServer.Fight
