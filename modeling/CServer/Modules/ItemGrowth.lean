import CServer.Lib.Periods
import CServer.Modules.Item

/-! # `calc_item_grow_count`: growth that is looked at

An item grows by an amount in every period of a rule, up to a limit; what grows beyond the limit is reported as
overflow. `item_get` stores the count and the time whenever a look at the item has modified it. Here the function is
taken with its overflow.
-/
namespace CServer.Modules
open CServer.Lib Int

/-! ## The code -/

structure GrowResult where
  count : ℤ
  modified : Bool
  overFlow : ℤ
  deriving DecidableEq

def cutOff (limit count grown : ℤ) : GrowResult :=
  if grown > limit then
    let newCount := if count > limit then count else limit
    ⟨newCount, true, toInt (grown - newCount)⟩
  else ⟨grown, true, 0⟩

/-- `calc_item_grow_count`; the overflow is 0 where the function does not set it. -/
def calcItemGrow (grow : List ItemGrowInfo) (create now count updateTime : ℤ) : Except Fault GrowResult :=
  match dropOver now grow with
  | [] => .ok ⟨count, false, 0⟩
  | grow :: _ => do
    if grow.beginTime > now then return ⟨count, false, 0⟩
    let startTime := toInt updateTime
    let beginTime ← growBegin grow create
    let reset := growReset grow beginTime now startTime
    let count := if reset then 0 else count
    if (← quotient (updateTime - grow.beginTime) grow.period) ≥ (← quotient (now - grow.beginTime) grow.period) then
      return ⟨count, reset, 0⟩
    let startTime := if beginTime ≥ startTime then toInt (beginTime - 1) else startTime
    let p1 := toInt (← quotient (now - (beginTime - grow.period)) grow.period)
    let p2 := toInt (← quotient (startTime - (beginTime - grow.period)) grow.period)
    return cutOff grow.limit count (toInt (count + (p1 - p2) * grow.amount))

/-- An item in the hands of `item_get`: what is stored, and the overflow reported so far. -/
structure Grown where
  grow : List ItemGrowInfo
  count : ℤ
  updateTime : ℤ
  overFlow : ℤ

/-- A look at the item. The count is stored as an `unsigned int` and read back as an `int`. -/
def observe (create : ℤ) (s : Grown) (now : ℤ) : Except Fault Grown := do
  let r ← calcItemGrow s.grow create now s.count s.updateTime
  let s := { s with grow := dropOver now s.grow }
  if r.modified then
    return { s with count := toInt (toUnsigned r.count), updateTime := now, overFlow := s.overFlow + r.overFlow }
  else return s

theorem cutOff_count (limit count grown : ℤ) : (⟨(cutOff limit count grown).count, (cutOff limit count grown).modified⟩ : GrowCount) =
    ⟨if grown > limit then (if count > limit then count else limit) else grown, true⟩ := by
  unfold cutOff
  split <;> rfl

theorem calcItemGrow_count (grow : List ItemGrowInfo) (create now count updateTime : ℤ) :
    (calcItemGrow grow create now count updateTime).map (fun r => (⟨r.count, r.modified⟩ : GrowCount)) =
      calcItemGrowCount grow create now count updateTime := by
  unfold calcItemGrow calcItemGrowCount
  cases dropOver now grow with
  | nil => rfl
  | cons g gs =>
    simp only
    by_cases hearly : g.beginTime > now
    · simp only [hearly, if_true]
      rfl
    · simp only [hearly, if_false]
      cases growBegin g create with
      | error e => rfl
      | ok b =>
        simp only [ok_bind]
        by_cases hperiod : g.period = 0
        · simp only [quotient, hperiod, if_true]
          rfl
        · simp only [quotient, hperiod, if_false, ok_bind]
          split
          · rfl
          · exact congrArg Except.ok (cutOff_count _ _ _)

/-! ## Growth without overflow of an `int` -/

/-- `begin_time` after it has been moved to the period the player was created in. -/
def beginAt (grow : ItemGrowInfo) (create : ℤ) : ℤ :=
  if create > grow.beginTime then grow.beginTime + (create - grow.beginTime).tdiv grow.period * grow.period
  else grow.beginTime

def SamePeriod (grow : ItemGrowInfo) (updateTime now : ℤ) : Prop :=
  (now - grow.beginTime).tdiv grow.period ≤ (updateTime - grow.beginTime).tdiv grow.period

instance (grow : ItemGrowInfo) (updateTime now : ℤ) : Decidable (SamePeriod grow updateTime now) :=
  inferInstanceAs (Decidable (_ ≤ _))

def startAt (beginTime updateTime : ℤ) : ℤ := if beginTime ≥ updateTime then beginTime - 1 else updateTime

def periodsAt (grow : ItemGrowInfo) (beginTime t : ℤ) : ℤ := (t - (beginTime - grow.period)).tdiv grow.period

def growth (grow : ItemGrowInfo) (create updateTime now : ℤ) : ℤ :=
  (periodsAt grow (beginAt grow create) now -
    periodsAt grow (beginAt grow create) (startAt (beginAt grow create) updateTime)) * grow.amount

/-- The count and the overflow after something has grown. -/
def capped (limit count growth : ℤ) : ℤ × ℤ :=
  if limit < count + growth then (max count limit, count + growth - max count limit) else (count + growth, 0)

structure GrowFits (grow : ItemGrowInfo) (create now count updateTime : ℤ) : Prop where
  time : IsInt updateTime
  start : IsInt (beginAt grow create - 1)
  periods : IsInt (periodsAt grow (beginAt grow create) now)
  before : IsInt (periodsAt grow (beginAt grow create) (startAt (beginAt grow create) updateTime))
  old : IsInt count
  limit : IsInt grow.limit
  grown : IsInt (count + growth grow create updateTime now)
  overFlow : IsInt (capped grow.limit count (growth grow create updateTime now)).2

theorem IsInt.toInt_eq {z : ℤ} (h : IsInt z) : toInt z = z := toInt_of_int h.1 h.2

theorem IsInt.stored {z : ℤ} (h : IsInt z) : toInt (toUnsigned z) = z := by
  obtain ⟨hlow, hhigh⟩ := h
  unfold toInt toUnsigned
  omega

variable {grow : ItemGrowInfo} {rest gs : List ItemGrowInfo} {create now count updateTime : ℤ}

theorem growBegin_eq (hperiod : grow.period ≠ 0) : growBegin grow create = .ok (beginAt grow create) := by
  unfold growBegin beginAt
  by_cases hlate : create > grow.beginTime
  · rw [if_pos hlate, if_pos hlate, quotient, if_neg hperiod]
    rfl
  · rw [if_neg hlate, if_neg hlate]
    rfl

theorem cutOff_eq {limit count growth : ℤ} (hover : IsInt (capped limit count growth).2) :
    cutOff limit count (count + growth) = ⟨(capped limit count growth).1, true, (capped limit count growth).2⟩ := by
  unfold capped at hover ⊢
  unfold cutOff
  by_cases hlimit : limit < count + growth
  · have hmax : (if count > limit then count else limit) = max count limit := by
      split <;> omega
    rw [if_pos hlimit] at hover
    simp only [gt_iff_lt, hlimit, if_true] at hover ⊢
    simp only [gt_iff_lt] at hmax
    rw [hmax, hover.toInt_eq]
  · simp only [gt_iff_lt, hlimit, if_false]

theorem calcItemGrow_eq (hrule : dropOver now gs = grow :: rest) (hbegin : grow.beginTime ≤ now)
    (hperiod : 0 < grow.period) (hreset : grow.isReset = 0) (hfits : GrowFits grow create now count updateTime) :
    calcItemGrow gs create now count updateTime = .ok (if SamePeriod grow updateTime now then ⟨count, false, 0⟩
      else ⟨(capped grow.limit count (growth grow create updateTime now)).1, true,
        (capped grow.limit count (growth grow create updateTime now)).2⟩) := by
  have hnoreset : growReset grow (beginAt grow create) now updateTime = false := by
    rw [growReset, decide_eq_false_iff_not]
    exact fun h => h.1 hreset
  have hstart : (if updateTime ≤ beginAt grow create then toInt (beginAt grow create - 1) else updateTime) =
      startAt (beginAt grow create) updateTime := by
    rw [hfits.start.toInt_eq, startAt]
  have hquotient : ∀ a, quotient a grow.period = .ok (a.tdiv grow.period) := fun a => if_neg hperiod.ne'
  unfold calcItemGrow
  simp only [hrule, gt_iff_lt, not_lt.mpr hbegin, if_false, growBegin_eq hperiod.ne', hquotient, ok_bind, hfits.time.toInt_eq,
    hnoreset, ge_iff_le, Bool.false_eq_true]
  by_cases hsame : SamePeriod grow updateTime now
  · rw [if_pos hsame]
    exact if_pos hsame
  · rw [if_neg hsame, ← cutOff_eq hfits.overFlow]
    refine (if_neg hsame).trans (congrArg (fun n => Except.ok (cutOff grow.limit count n)) ?_)
    have hp1 := hfits.periods.toInt_eq
    have hp2 := hfits.before.toInt_eq
    have hgrown := hfits.grown.toInt_eq
    rw [periodsAt] at hp1 hp2
    rw [growth, periodsAt, periodsAt] at hgrown ⊢
    rw [hstart, hp1, hp2, hgrown]

theorem capped_sum (limit count growth : ℤ) :
    (capped limit count growth).1 + (capped limit count growth).2 = count + growth := by
  unfold capped
  split <;> omega

theorem capped_add {limit count g g' : ℤ} (hg : 0 ≤ g) (hg' : g = 0 ∨ 0 ≤ g') :
    capped limit (capped limit count g).1 g' =
      ((capped limit count (g + g')).1, (capped limit count (g + g')).2 - (capped limit count g).2) := by
  unfold capped
  split <;> split <;> split <;> first | omega | (simp only [Prod.mk.injEq]; omega)

/-! ## Periods -/

theorem samePeriod_iff {u t : ℤ} :
    SamePeriod grow u t ↔ (t - grow.beginTime).tdiv grow.period ≤ (u - grow.beginTime).tdiv grow.period := Iff.rfl

theorem periodsAt_mono (hperiod : 0 < grow.period) {b t t' : ℤ} (h : t ≤ t') : periodsAt grow b t ≤ periodsAt grow b t' :=
  Int.tdiv_le_tdiv hperiod (by omega)

theorem not_samePeriod_lt (hperiod : 0 < grow.period) {u t : ℤ} (h : ¬ SamePeriod grow u t) : u < t := by
  by_contra hge
  exact h (Int.tdiv_le_tdiv hperiod (by omega))

theorem not_samePeriod_trans (hperiod : 0 < grow.period) {u t t' : ℤ} (h : ¬ SamePeriod grow u t) (ht : t ≤ t') :
    ¬ SamePeriod grow u t' := by
  have hle : (t - grow.beginTime).tdiv grow.period ≤ (t' - grow.beginTime).tdiv grow.period :=
    Int.tdiv_le_tdiv hperiod (by omega)
  rw [samePeriod_iff] at h ⊢
  omega

theorem periodsAt_startAt (hperiod : 0 < grow.period) {b u : ℤ} (hu : u ≤ b) : periodsAt grow b (startAt b u) = 0 := by
  rw [startAt, if_pos hu, periodsAt]
  exact tdiv_eq_zero_of_lt (by omega) (by omega)

def LooksAgree (grow : ItemGrowInfo) (b t1 t2 : ℤ) : Prop :=
  if SamePeriod grow t1 t2 then periodsAt grow b t1 = periodsAt grow b t2
  else periodsAt grow b t1 = periodsAt grow b (startAt b t1)

/-- The look at `t1` is later than the start of growth at `b`; or it is at the start and the next one is in the same
period; or it is earlier, by less than two periods, or with the next one in the same period (where it is not at the
very start of that period, or both are at one time). -/
def Harmless (grow : ItemGrowInfo) (b t1 t2 : ℤ) : Prop :=
  b < t1 ∨ (t1 = b ∧ t2 < b + grow.period) ∨
    (t1 < b ∧ (b - 2 * grow.period < t1 ∨ (t1 = t2 ∨ (t1 - grow.beginTime) % grow.period ≠ 0) ∧
      (t1 - grow.beginTime) / grow.period = (t2 - grow.beginTime) / grow.period))

theorem exists_periods (hperiod : 0 < grow.period) (t : ℤ) : ∃ q r, t = grow.beginTime + (q * grow.period + r) ∧ 0 ≤ r ∧
    r < grow.period ∧ (t - grow.beginTime) / grow.period = q ∧ (t - grow.beginTime) % grow.period = r := by
  refine ⟨(t - grow.beginTime) / grow.period, (t - grow.beginTime) % grow.period, ?_, emod_nonneg _ hperiod.ne',
    emod_lt_of_pos _ hperiod, rfl, rfl⟩
  have h := mul_ediv_add_emod (t - grow.beginTime) grow.period
  rw [Int.mul_comm] at h
  omega

theorem beginAt_periods (hperiod : 0 < grow.period) : ∃ k, 0 ≤ k ∧ beginAt grow create = grow.beginTime + k * grow.period := by
  unfold beginAt
  split
  · next hlate => exact ⟨_, Int.tdiv_nonneg (by omega) hperiod.le, rfl⟩
  · exact ⟨0, le_refl 0, by rw [Int.zero_mul, Int.add_zero]⟩

theorem periodsAt_eq {k q r : ℤ} (hr : 0 ≤ r) (hP : r < grow.period) :
    periodsAt grow (grow.beginTime + k * grow.period) (grow.beginTime + (q * grow.period + r)) =
      q - k + 1 + if 0 ≤ q - k + 1 ∨ r = 0 then 0 else 1 := by
  rw [periodsAt, ← tdiv_periods hr hP]
  congr 1
  ring

theorem looksAgree_iff (hperiod : 0 < grow.period) {t1 t2 : ℤ} (hbegin : grow.beginTime ≤ t1) (hle : t1 ≤ t2) :
    LooksAgree grow (beginAt grow create) t1 t2 ↔ Harmless grow (beginAt grow create) t1 t2 := by
  obtain ⟨k, hk, hb⟩ := @beginAt_periods grow create hperiod
  obtain ⟨q1, r1, ht1, hr1, hP1, hq1, hm1⟩ := exists_periods hperiod t1
  obtain ⟨q2, r2, ht2, hr2, hP2, hq2, hm2⟩ := exists_periods hperiod t2
  have hq1_nonneg : 0 ≤ q1 := by rw [← hq1]; exact ediv_nonneg (by omega) hperiod.le
  have hq2_nonneg : 0 ≤ q2 := by rw [← hq2]; exact ediv_nonneg (by omega) hperiod.le
  have hsame : SamePeriod grow t1 t2 ↔ q2 ≤ q1 := by
    rw [samePeriod_iff, tdiv_eq_ediv_of_nonneg (by omega), tdiv_eq_ediv_of_nonneg (by omega), hq1, hq2]
  have hn1 := @periodsAt_eq grow k q1 r1 hr1 hP1
  have hn2 := @periodsAt_eq grow k q2 r2 hr2 hP2
  rw [← hb, ← ht1] at hn1
  rw [← hb, ← ht2] at hn2
  have hstart : periodsAt grow (beginAt grow create) (startAt (beginAt grow create) t1) =
      if t1 ≤ beginAt grow create then 0 else periodsAt grow (beginAt grow create) t1 := by
    by_cases hearly : t1 ≤ beginAt grow create
    · rw [if_pos hearly, periodsAt_startAt hperiod hearly]
    · rw [if_neg hearly, startAt, if_neg hearly]
  -- every comparison of times, period by period
  have hlt : t1 < beginAt grow create ↔ q1 < k := by
    have h : q1 * grow.period + r1 < k * grow.period + 0 ↔ _ := lt_iff_periods hr1 hP1 (le_refl 0) hperiod
    omega
  have heq : t1 = beginAt grow create ↔ q1 = k ∧ r1 = 0 := by
    have h : q1 * grow.period + r1 = k * grow.period + 0 ↔ _ := eq_iff_periods hr1 hP1 (le_refl 0) hperiod
    omega
  have hnext : t2 < beginAt grow create + grow.period ↔ q2 ≤ k := by
    have h : q2 * grow.period + r2 < (k + 1) * grow.period + 0 ↔ _ := lt_iff_periods hr2 hP2 (le_refl 0) hperiod
    rw [Int.add_mul, Int.one_mul] at h
    omega
  have hnear : beginAt grow create - 2 * grow.period < t1 ↔ k - 2 < q1 ∨ k - 2 = q1 ∧ 0 < r1 := by
    have h : (k - 2) * grow.period + 0 < q1 * grow.period + r1 ↔ _ := lt_iff_periods (le_refl 0) hperiod hr1 hP1
    rw [Int.sub_mul] at h
    omega
  have htwo : t1 = t2 ↔ q1 = q2 ∧ r1 = r2 := by
    have h : q1 * grow.period + r1 = q2 * grow.period + r2 ↔ _ := eq_iff_periods hr1 hP1 hr2 hP2
    omega
  have horder : q1 < q2 ∨ q1 = q2 ∧ r1 ≤ r2 := by
    have h : q1 * grow.period + r1 ≤ q2 * grow.period + r2 ↔ _ := le_iff_periods hr1 hP1 hr2 hP2
    omega
  rw [LooksAgree, Harmless, hq1, hq2, hm1, hstart, hn1, hn2, hnext, hnear, htwo]
  clear hb ht1 ht2 hq1 hq2 hm1 hm2 hn1 hn2 hstart hbegin hle
  by_cases hq : q2 ≤ q1
  · rw [if_pos (hsame.mpr hq)]
    omega
  · rw [if_neg (hsame.not.mpr hq)]
    by_cases hearly : t1 ≤ beginAt grow create
    · rw [if_pos hearly]
      omega
    · rw [if_neg hearly]
      omega

/-! ## Looking twice -/

theorem observe_eq {s : Grown} (hrule : dropOver now s.grow = grow :: rest) (hbegin : grow.beginTime ≤ now)
    (hperiod : 0 < grow.period) (hreset : grow.isReset = 0) (hfits : GrowFits grow create now s.count s.updateTime) :
    observe create s now = .ok (if SamePeriod grow s.updateTime now then { s with grow := grow :: rest }
      else ⟨grow :: rest, (capped grow.limit s.count (growth grow create s.updateTime now)).1, now,
        s.overFlow + (capped grow.limit s.count (growth grow create s.updateTime now)).2⟩) := by
  have hcount : IsInt (capped grow.limit s.count (growth grow create s.updateTime now)).1 := by
    have hold := hfits.old
    have hlimit := hfits.limit
    have hgrown := hfits.grown
    unfold IsInt capped at *
    split <;> simp only <;> omega
  rw [observe, calcItemGrow_eq hrule hbegin hperiod hreset hfits, ok_bind]
  by_cases hsame : SamePeriod grow s.updateTime now
  · simp only [if_pos hsame, hrule]
    rfl
  · simp only [if_neg hsame, hrule, hcount.stored]
    rfl

theorem dropOver_later {t1 t2 : ℤ} (hrule : dropOver t1 gs = grow :: rest) (hle : t1 ≤ t2) (hend : t2 < grow.endTime) :
    dropOver t2 gs = grow :: rest := by
  induction gs with
  | nil => exact nomatch hrule
  | cons g gs ih =>
    by_cases hover : g.endTime > t1
    · rw [dropOver, List.dropWhile_cons_of_neg (by simp [hover])] at hrule
      obtain ⟨rfl, rfl⟩ := List.cons.inj hrule
      rw [dropOver, List.dropWhile_cons_of_neg (by simp [hend])]
    · rw [dropOver, List.dropWhile_cons_of_pos (by simpa using hover)] at hrule
      have hover' : ¬ g.endTime > t2 := by omega
      rw [dropOver, List.dropWhile_cons_of_pos (by simpa using hover')]
      exact ih hrule

def Grown.outcome (s : Grown) : ℤ × ℤ := (s.count, s.overFlow)

theorem growth_add (updateTime t1 t2 : ℤ) : growth grow create updateTime t1 +
    (periodsAt grow (beginAt grow create) t2 - periodsAt grow (beginAt grow create) t1) * grow.amount =
      growth grow create updateTime t2 := by
  unfold growth
  ring

theorem growth_signs (hperiod : 0 < grow.period) (hamount : 0 ≤ grow.amount) {updateTime t1 t2 : ℤ} (hle : t1 ≤ t2)
    (hut : updateTime < t1) (hagree : grow.amount = 0 ∨ periodsAt grow (beginAt grow create) t1 =
      periodsAt grow (beginAt grow create) (startAt (beginAt grow create) t1)) :
    0 ≤ growth grow create updateTime t1 ∧ (growth grow create updateTime t1 = 0 ∨ 0 ≤ growth grow create t1 t2) := by
  by_cases hearly : t1 ≤ beginAt grow create
  · have hzero : growth grow create updateTime t1 = 0 := by
      obtain h | h := hagree
      · rw [growth, h, Int.mul_zero]
      · rw [growth, h, periodsAt_startAt hperiod hearly, periodsAt_startAt hperiod (by omega), Int.sub_self, Int.zero_mul]
    exact ⟨hzero.ge, .inl hzero⟩
  · have hstart : startAt (beginAt grow create) updateTime ≤ t1 := by
      unfold startAt
      split <;> omega
    have hstart' : startAt (beginAt grow create) t1 = t1 := if_neg hearly
    refine ⟨Int.mul_nonneg (Int.sub_nonneg_of_le (periodsAt_mono hperiod hstart)) hamount, .inr ?_⟩
    rw [growth, hstart']
    exact Int.mul_nonneg (Int.sub_nonneg_of_le (periodsAt_mono hperiod hle)) hamount

theorem twice_eq_once_iff (hperiod : 0 < grow.period) (hamount : 0 ≤ grow.amount) (limit count : ℤ)
    {updateTime t1 t2 : ℤ} (hle : t1 ≤ t2) (hnew : ¬ SamePeriod grow updateTime t1) :
    (let first := capped limit count (growth grow create updateTime t1)
      if SamePeriod grow t1 t2 then first
      else ((capped limit first.1 (growth grow create t1 t2)).1, first.2 + (capped limit first.1 (growth grow create t1 t2)).2)) =
        capped limit count (growth grow create updateTime t2) ↔
      grow.amount = 0 ∨ LooksAgree grow (beginAt grow create) t1 t2 := by
  have hsum := @growth_add grow create updateTime t1 t2
  have hut := not_samePeriod_lt hperiod hnew
  have hfirst := capped_sum limit count (growth grow create updateTime t1)
  have honce := capped_sum limit count (growth grow create updateTime t2)
  simp only
  by_cases hsame : SamePeriod grow t1 t2
  · rw [if_pos hsame, LooksAgree, if_pos hsame]
    constructor
    · intro he
      rw [he] at hfirst
      have hzero : (periodsAt grow (beginAt grow create) t2 - periodsAt grow (beginAt grow create) t1) * grow.amount = 0 := by
        omega
      obtain h | h := Int.mul_eq_zero.mp hzero
      · exact .inr (by omega)
      · exact .inl h
    · rintro (hzero | hagree)
      · rw [hzero, Int.mul_zero, Int.add_zero] at hsum
        rw [hsum]
      · rw [hagree, Int.sub_self, Int.zero_mul, Int.add_zero] at hsum
        rw [hsum]
  · rw [if_neg hsame, LooksAgree, if_neg hsame]
    have hsecond := capped_sum limit (capped limit count (growth grow create updateTime t1)).1 (growth grow create t1 t2)
    have hdiff : growth grow create updateTime t1 + growth grow create t1 t2 = growth grow create updateTime t2 +
        (periodsAt grow (beginAt grow create) t1 -
          periodsAt grow (beginAt grow create) (startAt (beginAt grow create) t1)) * grow.amount := by
      unfold growth
      ring
    constructor
    · intro he
      have hcounts := congrArg (fun r : ℤ × ℤ => r.1 + r.2) he
      simp only at hcounts
      have hzero : (periodsAt grow (beginAt grow create) t1 -
          periodsAt grow (beginAt grow create) (startAt (beginAt grow create) t1)) * grow.amount = 0 := by
        omega
      obtain h | h := Int.mul_eq_zero.mp hzero
      · exact .inr (by omega)
      · exact .inl h
    · intro hagree
      have hgrowth : growth grow create updateTime t1 + growth grow create t1 t2 = growth grow create updateTime t2 := by
        obtain hzero | hagree := hagree
        · rw [hzero, Int.mul_zero, Int.add_zero] at hdiff
          exact hdiff
        · rw [hagree, Int.sub_self, Int.zero_mul, Int.add_zero] at hdiff
          exact hdiff
      obtain ⟨hsign, hsign'⟩ := growth_signs hperiod hamount hle hut hagree
      rw [capped_add hsign hsign', hgrowth]
      refine Prod.ext rfl ?_
      simp only
      omega

/-- Looking at `t1` and then at `t2` stores and reports what looking at `t2` alone does exactly if nothing grows, or
the first look finds nothing new, or it does no harm. -/
theorem growth_observed_iff {s : Grown} {t1 t2 : ℤ} (hrule : dropOver t1 s.grow = grow :: rest) (hbegin : grow.beginTime ≤ t1)
    (hle : t1 ≤ t2) (hend : t2 < grow.endTime) (hperiod : 0 < grow.period) (hamount : 0 ≤ grow.amount)
    (hreset : grow.isReset = 0) (hfits : GrowFits grow create t1 s.count s.updateTime)
    (hfits' : GrowFits grow create t2 s.count s.updateTime)
    (hnext : ∀ s', observe create s t1 = .ok s' → GrowFits grow create t2 s'.count s'.updateTime) :
    (do let s' ← observe create s t1; observe create s' t2).map Grown.outcome = (observe create s t2).map Grown.outcome ↔
      grow.amount = 0 ∨ SamePeriod grow s.updateTime t1 ∨ Harmless grow (beginAt grow create) t1 t2 := by
  have honce := observe_eq (dropOver_later hrule hle hend) (hbegin.trans hle) hperiod hreset hfits'
  have hfirst := observe_eq hrule hbegin hperiod hreset hfits
  have hdrop : dropOver t2 (grow :: rest) = grow :: rest := by
    rw [dropOver, List.dropWhile_cons_of_neg (by simp [hend])]
  by_cases hseen : SamePeriod grow s.updateTime t1
  · -- the first look stores nothing
    refine iff_of_true ?_ (.inr (.inl hseen))
    rw [if_pos hseen] at hfirst
    have hsecond := @observe_eq grow rest create t2 { s with grow := grow :: rest } hdrop (hbegin.trans hle) hperiod hreset hfits'
    rw [hfirst, ok_bind, hsecond, honce]
  · rw [if_neg hseen] at hfirst
    have hsecond := observe_eq hdrop (hbegin.trans hle) hperiod hreset (hnext _ hfirst)
    rw [hfirst, ok_bind, hsecond, honce, if_neg (not_samePeriod_trans hperiod hseen hle)]
    rw [or_iff_right hseen, ← looksAgree_iff hperiod hbegin hle,
      ← twice_eq_once_iff hperiod hamount grow.limit s.count hle hseen]
    by_cases hsame : SamePeriod grow t1 t2
    · simp only [if_pos hsame, Except.map, Grown.outcome, Except.ok.injEq, Prod.ext_iff]
      omega
    · simp only [if_neg hsame, Except.map, Grown.outcome, Except.ok.injEq, Prod.ext_iff]
      omega

def growthOfOne : ItemGrowInfo := ⟨100, 1000, 10, 1, 100, 0⟩

theorem growth_observed_later :
    (do let s' ← observe 0 ⟨[growthOfOne], 0, 0, 0⟩ 105; observe 0 s' 110).map Grown.outcome =
      (observe 0 ⟨[growthOfOne], 0, 0, 0⟩ 110).map Grown.outcome := by
  have hfits : GrowFits growthOfOne 0 105 0 0 := by constructor <;> decide
  refine (@growth_observed_iff growthOfOne [] 0 ⟨[growthOfOne], 0, 0, 0⟩ 105 110 rfl (by decide) (by decide) (by decide)
    (by decide) (by decide) rfl hfits (by constructor <;> decide) ?_).mpr (.inr (.inr (.inl (by decide))))
  intro s' h
  have hfirst := @observe_eq growthOfOne [] 0 105 ⟨[growthOfOne], 0, 0, 0⟩ rfl (by decide) (by decide) rfl hfits
  obtain rfl := ok_unique h hfirst
  constructor <;> decide

/-- Whoever looks exactly at the start gets one item more. -/
theorem growth_observed_at_start :
    (do let s' ← observe 0 ⟨[growthOfOne], 0, 0, 0⟩ 100; observe 0 s' 110).map Grown.outcome = .ok (3, 0) ∧
      (observe 0 ⟨[growthOfOne], 0, 0, 0⟩ 110).map Grown.outcome = .ok (2, 0) := by
  have hfirst := @observe_eq growthOfOne [] 0 100 ⟨[growthOfOne], 0, 0, 0⟩ rfl (by decide) (by decide) rfl
    (by constructor <;> decide)
  rw [if_neg (by decide)] at hfirst
  have hsecond := @observe_eq growthOfOne [] 0 110 ⟨[growthOfOne], 1, 100, 0⟩ rfl (by decide) (by decide) rfl
    (by constructor <;> decide)
  have honce := @observe_eq growthOfOne [] 0 110 ⟨[growthOfOne], 0, 0, 0⟩ rfl (by decide) (by decide) rfl
    (by constructor <;> decide)
  rw [hfirst, ok_bind]
  exact ⟨(congrArg (Except.map Grown.outcome) hsecond).trans (congrArg Except.ok (by decide)),
    (congrArg (Except.map Grown.outcome) honce).trans (congrArg Except.ok (by decide))⟩

end CServer.Modules
