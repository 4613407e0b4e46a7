import CServer.Modules.ItemGrowth

/-! # `world/modules/item.c`: compensation for growth beyond the limit

When a look at an item reports overflow, `compensate_item` turns it into packages: it goes through the periods since
the last look once more, from the time stamps, and writes for each of them as many packages as its amount pays for into
the record of its day. Only the first period is cut to what the overflow leaves over. A count is an `unsigned int`, to
which a negative number of packages adds nearly `2 ^ 32`.
-/
namespace CServer.Modules
open CServer.Lib Int

/-! ## The code -/

structure CompensateCfg where
  num : ℤ
  minLevel : ℤ
  maxLevel : ℤ
  drop1 : ℕ

def getCompensateCfg (cfgs : List CompensateCfg) (level : ℤ) : Option CompensateCfg :=
  cfgs.find? fun cfg => decide (level ≥ cfg.minLevel ∧ level ≤ cfg.maxLevel)

structure Compensate where
  dropId : ℕ
  time : ℤ
  count : BitVec 32
  level : ℤ

def Compensate.isAt (dropId : ℕ) (time : ℤ) (c : Compensate) : Bool := decide (c.dropId = dropId ∧ c.time = time)

variable (records : List Compensate)

def compensateGet (dropId : ℕ) (time : ℤ) : Option Compensate :=
  records.find? (Compensate.isAt dropId time)

/-- `DATA_Compensate_update_count` of the record that `compensate_get` finds. -/
def addCount (dropId : ℕ) (time n : ℤ) : List Compensate → List Compensate
  | [] => []
  | c :: records =>
    if c.isAt dropId time then { c with count := c.count + BitVec.ofInt 32 n } :: records
    else c :: addCount dropId time n records

def compenTime (t ref period : ℤ) : Except Fault ℤ := do
  let n ← quotient (t - ref) period
  .ok (ref + (n + 1) * period - 1)

def part (amount remain i : ℤ) : ℤ := if i = 0 ∧ remain ≠ 0 then remain else amount

/-- The periods from `i` on, `k` of them; `stored` says which new records the database takes. -/
def compensateLoop (grow : ItemGrowInfo) (cfg : CompensateCfg) (level updateTime remain : ℤ) (stored : ℤ → Bool) :
    ℕ → ℤ → List Compensate → Except Fault (List Compensate)
  | 0, _, records => .ok records
  | k + 1, i, records => do
    let period := if grow.period < 86400 then 86400 else grow.period
    let beginTime ← compenTime (updateTime + toInt (grow.period * i)) grow.beginTime period
    let n ← quotient (part grow.amount remain i) cfg.num
    if n = 0 then return records
    match compensateGet records cfg.drop1 beginTime with
    | none =>
      if stored i then
        compensateLoop grow cfg level updateTime remain stored k (i + 1)
          (records ++ [⟨cfg.drop1, beginTime, BitVec.ofInt 32 n, level⟩])
      else compensateLoop grow cfg level updateTime remain stored k (i + 1) records
    | some _ =>
      compensateLoop grow cfg level updateTime remain stored k (i + 1) (addCount cfg.drop1 beginTime n records)

def compensateItem (grow : List ItemGrowInfo) (cfgs : List CompensateCfg) (level now count updateTime : ℤ)
    (stored : ℤ → Bool) (records : List Compensate) : Except Fault (List Compensate) :=
  if count ≤ 0 ∨ updateTime ≤ 0 then .ok records
  else
    match grow.find? fun g => decide (g.endTime > now ∧ now ≥ g.beginTime) with
    | none => .ok records
    | some grow =>
      match getCompensateCfg cfgs level with
      | none => .ok records
      | some cfg => do
        if grow.amount = 0 then .error .divisionByZero
        else do
          let remain := count.tmod grow.amount
          let nowBeginTime ← compenTime now grow.beginTime grow.period
          let updateBeginTime ← compenTime updateTime grow.beginTime grow.period
          let n ← quotient (nowBeginTime - updateBeginTime) grow.period
          let nperiod := toInt n
          let days ← quotient 86400 grow.period
          let most := toInt (30 * days)
          let i := if nperiod > most then nperiod - most else 0
          compensateLoop grow cfg level updateTime remain stored (nperiod - i).toNat i records

/-! ## What the loop writes -/

def total : ℤ := sumOf (fun c => (c.count.toNat : ℤ)) records

theorem packages_nonneg : 0 ≤ total records := sumOf_nonneg fun c _ => natCast_nonneg c.count.toNat

/-- What a count of `old` grows by when `n` is added to it. -/
def gain (old : BitVec 32) (n : ℤ) : ℤ := (old.toNat + n) % 2 ^ 32 - old.toNat

theorem add_packages (old : BitVec 32) (n : ℤ) : ((old + BitVec.ofInt 32 n).toNat : ℤ) = old.toNat + gain old n := by
  rw [gain, BitVec.toNat_add, BitVec.toNat_ofInt]
  omega

theorem addCount_total {dropId : ℕ} {time n : ℤ} {records : List Compensate} {c : Compensate}
    (h : compensateGet records dropId time = some c) :
    total (addCount dropId time n records) = total records + gain c.count n ∧ (c.count.toNat : ℤ) ≤ total records := by
  induction records with
  | nil => exact nomatch h
  | cons d records ih =>
    have hrecords := packages_nonneg records
    simp only [total] at hrecords
    by_cases hd : d.isAt dropId time = true
    · rw [compensateGet, List.find?_cons_of_pos hd] at h
      obtain rfl := Option.some.inj h
      simp only [addCount, hd, if_true, total, sumOf_cons, add_packages]
      omega
    · rw [compensateGet, List.find?_cons_of_neg hd] at h
      have hrest := ih h
      simp only [total] at hrest
      simp only [addCount, hd, Bool.false_eq_true, if_false, total, sumOf_cons, hrest]
      omega

/-- What the periods from `i` on are worth in packages, `k` of them, up to the first one that is worth none. -/
def worth (amount remain num : ℤ) : ℕ → ℤ → ℤ
  | 0, _ => 0
  | k + 1, i =>
    let n := (part amount remain i).tdiv num
    if n = 0 then 0 else n + worth amount remain num k (i + 1)

theorem tdiv_mul_nonneg {n : ℤ} (hn : 0 ≤ n) (m : ℤ) : 0 ≤ n.tdiv m * m := by
  obtain hm | hm := Int.le_total 0 m
  · exact Int.mul_nonneg (Int.tdiv_nonneg hn hm) hm
  · exact Int.mul_nonneg_of_nonpos_of_nonpos (Int.tdiv_nonpos_of_nonneg_of_nonpos hn hm) hm

theorem tdiv_mul_le {n : ℤ} (hn : 0 ≤ n) (m : ℤ) : n.tdiv m * m ≤ n := by
  have hsplit := tdiv_mul_add_tmod n m
  have hmod := tmod_nonneg m hn
  omega

/-- Of an amount that is no debt, no record gains more than the packages are worth. -/
theorem gain_le {n : ℤ} (hn : 0 ≤ n) (m : ℤ) (old : BitVec 32) : gain old (n.tdiv m) * m ≤ n.tdiv m * m := by
  have hold := old.isLt
  obtain hm | hm := Int.le_total 0 m
  · have hpackages := Int.tdiv_nonneg hn hm
    apply Int.mul_le_mul_of_nonneg_right _ hm
    unfold gain
    omega
  · have hpackages := Int.tdiv_nonpos_of_nonneg_of_nonpos hn hm
    apply Int.mul_le_mul_of_nonpos_right _ hm
    unfold gain
    omega

section Loop

variable {grow : ItemGrowInfo} {cfg : CompensateCfg} {level updateTime remain : ℤ} {stored : ℤ → Bool}

theorem compensateLoop_step {k : ℕ} {i : ℤ} {records records' : List Compensate} (hnum : cfg.num ≠ 0)
    (hn : (part grow.amount remain i).tdiv cfg.num ≠ 0)
    (h : compensateLoop grow cfg level updateTime remain stored (k + 1) i records = .ok records') :
    ∃ next, compensateLoop grow cfg level updateTime remain stored k (i + 1) next = .ok records' ∧
      ((∃ old : BitVec 32, (old.toNat : ℤ) ≤ total records ∧
          total next = total records + gain old ((part grow.amount remain i).tdiv cfg.num)) ∨
        stored i = false ∧ next = records) := by
  rw [compensateLoop] at h
  obtain ⟨beginTime, -, h⟩ := bind_ok_iff.mp h
  simp only [quotient, hnum, if_false, ok_bind, hn] at h
  cases hget : compensateGet records cfg.drop1 beginTime with
  | none =>
    simp only [hget] at h
    cases hstored : stored i with
    | true =>
      simp only [hstored, if_true] at h
      refine ⟨_, h, .inl ⟨0#32, packages_nonneg records, ?_⟩⟩
      have hnew := add_packages 0#32 ((part grow.amount remain i).tdiv cfg.num)
      simp only [BitVec.zero_add, BitVec.toNat_zero, Int.natCast_zero, Int.zero_add] at hnew
      rw [total, sumOf_snoc, hnew, total]
    | false =>
      simp only [hstored, Bool.false_eq_true, if_false] at h
      exact ⟨_, h, .inr ⟨rfl, rfl⟩⟩
  | some c =>
    simp only [hget] at h
    exact ⟨_, h, .inl ⟨c.count, (addCount_total (n := 0) hget).2, (addCount_total hget).1⟩⟩

theorem compensateLoop_stop {k : ℕ} {i : ℤ} {records records' : List Compensate} (hnum : cfg.num ≠ 0)
    (hn : (part grow.amount remain i).tdiv cfg.num = 0)
    (h : compensateLoop grow cfg level updateTime remain stored (k + 1) i records = .ok records') : records' = records := by
  rw [compensateLoop] at h
  obtain ⟨beginTime, -, h⟩ := bind_ok_iff.mp h
  simp only [quotient, hnum, if_false, ok_bind, hn, if_true] at h
  exact (Except.ok.inj h).symm

theorem part_nonneg {amount : ℤ} (hamount : 0 ≤ amount) (hremain : 0 ≤ remain) (i : ℤ) : 0 ≤ part amount remain i := by
  unfold part
  split
  · exact hremain
  · exact hamount

theorem worth_nonneg {amount num : ℤ} (hamount : 0 ≤ amount) (hremain : 0 ≤ remain) (hnum : 0 ≤ num) (k : ℕ) :
    ∀ i, 0 ≤ worth amount remain num k i := by
  induction k with
  | zero => exact fun _ => le_refl 0
  | succ k ih =>
    intro i
    have hpackages := Int.tdiv_nonneg (part_nonneg hamount hremain i) hnum
    have hrest := ih (i + 1)
    rw [worth]
    split <;> omega

/-- Where every new record is stored and the counts do not wrap, all is written. -/
theorem compensateLoop_total (hnum : 0 < cfg.num) (hamount : 0 ≤ grow.amount) (hremain : 0 ≤ remain) (k : ℕ) :
    ∀ {i : ℤ} {records records' : List Compensate}, (∀ j, i ≤ j → stored j = true) →
      total records + worth grow.amount remain cfg.num k i < 2 ^ 32 →
      compensateLoop grow cfg level updateTime remain stored k i records = .ok records' →
        total records' = total records + worth grow.amount remain cfg.num k i := by
  induction k with
  | zero =>
    intro i records records' _ _ h
    rw [← Except.ok.inj h, worth, Int.add_zero]
  | succ k ih =>
    intro i records records' hstored hfits h
    rw [worth] at hfits ⊢
    by_cases hn : (part grow.amount remain i).tdiv cfg.num = 0
    · rw [compensateLoop_stop hnum.ne' hn h, if_pos hn, Int.add_zero]
    · obtain ⟨next, hrest, hnext⟩ := compensateLoop_step hnum.ne' hn h
      obtain ⟨old, hold, hwritten⟩ := hnext.resolve_right fun hf => Bool.noConfusion ((hstored i (le_refl i)).symm.trans hf.1)
      have hpackages := Int.tdiv_nonneg (part_nonneg hamount hremain i) hnum.le
      have hlater := worth_nonneg hamount hremain hnum.le k (i + 1)
      rw [if_neg hn] at hfits ⊢
      have hgain : gain old ((part grow.amount remain i).tdiv cfg.num) = (part grow.amount remain i).tdiv cfg.num := by
        unfold gain
        omega
      rw [hgain] at hwritten
      have hall := ih (fun j hj => hstored j (by omega)) (by omega) hrest
      omega

theorem compensateLoop_le (hnum : cfg.num ≠ 0) (hamount : 0 ≤ grow.amount) (hremain : 0 ≤ remain) (k : ℕ) :
    ∀ {i : ℤ} {records records' : List Compensate},
      compensateLoop grow cfg level updateTime remain stored k i records = .ok records' →
        (total records' - total records) * cfg.num ≤ worth grow.amount remain cfg.num k i * cfg.num := by
  induction k with
  | zero =>
    intro i records records' h
    rw [← Except.ok.inj h, worth, Int.sub_self]
  | succ k ih =>
    intro i records records' h
    rw [worth]
    by_cases hn : (part grow.amount remain i).tdiv cfg.num = 0
    · rw [compensateLoop_stop hnum hn h, if_pos hn, Int.sub_self]
    · obtain ⟨next, hrest, hnext⟩ := compensateLoop_step hnum hn h
      have hle := ih hrest
      have hpart := part_nonneg hamount hremain i
      have hcost := tdiv_mul_nonneg hpart cfg.num
      rw [if_neg hn, Int.add_mul]
      obtain ⟨old, -, hwritten⟩ | ⟨-, rfl⟩ := hnext
      · have hgain := gain_le hpart cfg.num old
        have hsplit : (total records' - total next) * cfg.num +
            gain old ((part grow.amount remain i).tdiv cfg.num) * cfg.num = (total records' - total records) * cfg.num := by
          rw [hwritten]
          ring
        omega
      · omega

/-- Of `k` periods from `i` on, none pays a negative amount: a package is worth more, or there is only the first period,
with what the overflow leaves over. -/
def DebtFree (amount remain num k i : ℤ) : Prop :=
  amount.tdiv num = 0 ∨ k ≤ 0 ∨ i = 0 ∧ remain ≠ 0 ∧ (k = 1 ∨ remain.tdiv num = 0)

instance (amount remain num k i : ℤ) : Decidable (DebtFree amount remain num k i) := inferInstanceAs (Decidable (_ ∨ _))

theorem compensateLoop_first (hnum : cfg.num ≠ 0) (hremain : 0 ≤ remain) {k : ℕ} {i : ℤ}
    (hdebt : DebtFree grow.amount remain cfg.num k i) {records records' : List Compensate}
    (h : compensateLoop grow cfg level updateTime remain stored k i records = .ok records') :
    (total records' - total records) * cfg.num ≤ remain := by
  cases k with
  | zero =>
    rw [← Except.ok.inj h, Int.sub_self, Int.zero_mul]
    exact hremain
  | succ k =>
    by_cases hn : (part grow.amount remain i).tdiv cfg.num = 0
    · rw [compensateLoop_stop hnum hn h, Int.sub_self, Int.zero_mul]
      exact hremain
    obtain ⟨next, hrest, hnext⟩ := compensateLoop_step hnum hn h
    have hfirst : i = 0 ∧ remain ≠ 0 := by
      by_contra hlater
      rw [part, if_neg hlater] at hn
      obtain hzero | hnone | ⟨hi, hr, -⟩ := hdebt
      · exact hn hzero
      · omega
      · exact hlater ⟨hi, hr⟩
    rw [part, if_pos hfirst] at hn hnext
    have hlast : records' = next := by
      cases k with
      | zero => exact (Except.ok.inj hrest).symm
      | succ k =>
        have hzero : grow.amount.tdiv cfg.num = 0 := by
          obtain hzero | hnone | ⟨-, -, hone | hzero⟩ := hdebt
          · exact hzero
          · omega
          · omega
          · exact absurd hzero hn
        refine compensateLoop_stop hnum ?_ hrest
        rw [part, if_neg (by omega)]
        exact hzero
    have hcost := tdiv_mul_le hremain cfg.num
    obtain ⟨old, -, hwritten⟩ | ⟨-, rfl⟩ := hnext
    · have hgain := gain_le hremain cfg.num old
      rw [hlast, hwritten, add_sub_cancel_left]
      omega
    · rw [hlast, Int.sub_self, Int.zero_mul]
      exact hremain

end Loop

theorem worth_later {amount remain num : ℤ} (k : ℕ) : ∀ {i : ℤ}, 0 < i →
    worth amount remain num k i = k * amount.tdiv num := by
  induction k with
  | zero =>
    intro i _
    rw [worth, Nat.cast_zero, Int.zero_mul]
  | succ k ih =>
    intro i hpos
    have hpart : part amount remain i = amount := if_neg fun h => hpos.ne' h.1
    rw [worth, hpart, ih (by omega)]
    by_cases hzero : amount.tdiv num = 0
    · simp only [hzero, if_true, Int.mul_zero]
    · simp only [hzero, if_false]
      push_cast
      ring

/-! ## Overflow and packages -/

def countBefore (grow : ItemGrowInfo) (create now count updateTime : ℤ) : ℤ :=
  if growReset grow (beginAt grow create) now (toInt updateTime) then 0 else count

def periodsGrown (grow : ItemGrowInfo) (create now updateTime : ℤ) : ℤ :=
  toInt (periodsAt grow (beginAt grow create) now) - toInt (periodsAt grow (beginAt grow create)
    (if beginAt grow create ≥ toInt updateTime then toInt (beginAt grow create - 1) else toInt updateTime))

def periodsCompensated (grow : ItemGrowInfo) (now updateTime : ℤ) : ℤ :=
  toInt ((now - grow.beginTime).tdiv grow.period - (updateTime - grow.beginTime).tdiv grow.period)

def mostPeriods (grow : ItemGrowInfo) : ℤ := toInt (30 * (86400 : ℤ).tdiv grow.period)

def room (limit count : ℤ) : ℤ := max (limit - count) 0

variable {grow : ItemGrowInfo} {rest gs : List ItemGrowInfo} {create now count updateTime : ℤ}

theorem calcItemGrow_same (hrule : dropOver now gs = grow :: rest) (hbegin : grow.beginTime ≤ now) {r : GrowResult}
    (hsame : SamePeriod grow updateTime now) (h : calcItemGrow gs create now count updateTime = .ok r) : r.overFlow = 0 := by
  by_cases hperiod : grow.period = 0
  · unfold calcItemGrow at h
    simp only [hrule, gt_iff_lt, not_lt.mpr hbegin, if_false, quotient, hperiod, if_true] at h
    obtain ⟨b, -, h⟩ := bind_ok_iff.mp h
    cases h
  · have hquotient : ∀ a, quotient a grow.period = .ok (a.tdiv grow.period) := fun a => if_neg hperiod
    unfold calcItemGrow at h
    simp only [hrule, gt_iff_lt, not_lt.mpr hbegin, if_false, growBegin_eq hperiod, hquotient, ok_bind, ge_iff_le] at h
    have hearly := (if_pos hsame).symm.trans h
    rw [← Except.ok.inj hearly]

theorem calcItemGrow_over (hrule : dropOver now gs = grow :: rest) (hbegin : grow.beginTime ≤ now)
    (hperiod : grow.period ≠ 0) (hnew : ¬ SamePeriod grow updateTime now)
    (hgrown : IsInt (countBefore grow create now count updateTime +
      periodsGrown grow create now updateTime * grow.amount))
    (hover : IsInt (capped grow.limit (countBefore grow create now count updateTime)
      (periodsGrown grow create now updateTime * grow.amount)).2) :
    calcItemGrow gs create now count updateTime = .ok
      ⟨(capped grow.limit (countBefore grow create now count updateTime)
        (periodsGrown grow create now updateTime * grow.amount)).1, true,
      (capped grow.limit (countBefore grow create now count updateTime)
        (periodsGrown grow create now updateTime * grow.amount)).2⟩ := by
  have hquotient : ∀ a, quotient a grow.period = .ok (a.tdiv grow.period) := fun a => if_neg hperiod
  rw [← cutOff_eq hover]
  unfold calcItemGrow
  simp only [hrule, gt_iff_lt, not_lt.mpr hbegin, if_false, growBegin_eq hperiod, hquotient, ok_bind, ge_iff_le]
  refine (if_neg hnew).trans (congrArg (fun n => Except.ok (cutOff grow.limit _ n)) ?_)
  exact hgrown.toInt_eq

theorem compenTime_eq {t ref period : ℤ} (hperiod : period ≠ 0) :
    compenTime t ref period = .ok (ref + ((t - ref).tdiv period + 1) * period - 1) := by
  rw [compenTime, quotient, if_neg hperiod]
  rfl

def firstPeriod (grow : ItemGrowInfo) (now updateTime : ℤ) : ℤ :=
  if periodsCompensated grow now updateTime > mostPeriods grow then
    periodsCompensated grow now updateTime - mostPeriods grow
  else 0

theorem compensateItem_eq {cfgs : List CompensateCfg} {cfg : CompensateCfg} {level o : ℤ} {stored : ℤ → Bool}
    {records : List Compensate} (hend : now < grow.endTime) (hbegin : grow.beginTime ≤ now) (hperiod : grow.period ≠ 0)
    (hcfg : getCompensateCfg cfgs level = some cfg) (hamount : grow.amount ≠ 0) (ho : 0 < o) (htime : 0 < updateTime) :
    compensateItem (grow :: rest) cfgs level now o updateTime stored records =
      compensateLoop grow cfg level updateTime (o.tmod grow.amount) stored
        (periodsCompensated grow now updateTime - firstPeriod grow now updateTime).toNat
        (firstPeriod grow now updateTime) records := by
  have hfind : (grow :: rest).find? (fun g => decide (g.endTime > now ∧ now ≥ g.beginTime)) = some grow :=
    List.find?_cons_of_pos (by simp [hend, hbegin])
  have hcalled : ¬ (o ≤ 0 ∨ updateTime ≤ 0) := by omega
  have hquotient : ∀ a, quotient a grow.period = .ok (a.tdiv grow.period) := fun a => if_neg hperiod
  have hperiods : (grow.beginTime + ((now - grow.beginTime).tdiv grow.period + 1) * grow.period - 1 -
      (grow.beginTime + ((updateTime - grow.beginTime).tdiv grow.period + 1) * grow.period - 1)).tdiv grow.period =
        (now - grow.beginTime).tdiv grow.period - (updateTime - grow.beginTime).tdiv grow.period := by
    rw [← mul_tdiv_cancel ((now - grow.beginTime).tdiv grow.period - (updateTime - grow.beginTime).tdiv grow.period)
      hperiod]
    congr 1
    ring
  rw [compensateItem, if_neg hcalled, hfind]
  simp only [hcfg, hamount, if_false, compenTime_eq hperiod, hquotient, ok_bind, hperiods]
  rfl

section Sum

variable {cfg : CompensateCfg} {cfgs : List CompensateCfg} {level : ℤ}

theorem compensateLoop_ok (hperiod : grow.period ≠ 0) (hnum : cfg.num ≠ 0) {remain : ℤ} (stored : ℤ → Bool) (k : ℕ) :
    ∀ {i : ℤ} (records : List Compensate),
      ∃ records', compensateLoop grow cfg level updateTime remain stored k i records = .ok records' := by
  have hday : (if grow.period < 86400 then 86400 else grow.period) ≠ 0 := by split <;> omega
  induction k with
  | zero => exact fun records => ⟨records, rfl⟩
  | succ k ih =>
    intro i records
    rw [compensateLoop]
    simp only [compenTime_eq hday, quotient, hnum, if_false, ok_bind]
    by_cases hn : (part grow.amount remain i).tdiv cfg.num = 0
    · simp only [hn, if_true]
      exact ⟨_, rfl⟩
    · simp only [hn, if_false]
      split
      · split
        · exact ih _
        · exact ih _
      · exact ih _

theorem compensateLoop_skip (hnum : cfg.num ≠ 0) {remain : ℤ} {stored : ℤ → Bool} {k : ℕ} {i : ℤ}
    (hn : (part grow.amount remain i).tdiv cfg.num ≠ 0) (hstored : stored i = false) :
    compensateLoop grow cfg level updateTime remain stored (k + 1) i [] =
      compensateLoop grow cfg level updateTime remain stored k (i + 1) [] := by
  have hday : (if grow.period < 86400 then 86400 else grow.period) ≠ 0 := by split <;> omega
  rw [compensateLoop]
  simp only [compenTime_eq hday, quotient, hnum, if_false, ok_bind, hn, compensateGet, List.find?_nil, hstored,
    Bool.false_eq_true]

/-- If the periods are worth more than `o`, so are the last of them: those that are written when only their records
are stored, and before a count wraps. -/
theorem compensateLoop_over (hperiod : grow.period ≠ 0) (hnum : 0 < cfg.num) (hamount : 0 ≤ grow.amount)
    (hint : grow.amount < 2 ^ 31) {remain o : ℤ} (hremain : 0 ≤ remain) (hrint : remain < 2 ^ 31) (ho : 0 ≤ o)
    (hoint : o < 2 ^ 31) (k : ℕ) :
    ∀ i, o < worth grow.amount remain cfg.num k i * cfg.num → ∃ m, i ≤ m ∧ ∃ records',
      compensateLoop grow cfg level updateTime remain (fun j => decide (m ≤ j)) k i [] = .ok records' ∧
        o < total records' * cfg.num := by
  induction k with
  | zero =>
    intro i hover
    rw [worth, Int.zero_mul] at hover
    omega
  | succ k ih =>
    intro i hover
    by_cases hn : (part grow.amount remain i).tdiv cfg.num = 0
    · simp only [worth, if_pos hn, Int.zero_mul] at hover
      omega
    by_cases hlater : o < worth grow.amount remain cfg.num k (i + 1) * cfg.num
    · obtain ⟨m, hm, records', h, hwritten⟩ := ih (i + 1) hlater
      refine ⟨m, by omega, records', ?_, hwritten⟩
      rw [compensateLoop_skip hnum.ne' hn (decide_eq_false (by omega))]
      exact h
    · obtain ⟨records', h⟩ := @compensateLoop_ok grow updateTime cfg level hperiod hnum.ne' remain (fun j => decide (i ≤ j))
        (k + 1) i []
      have hpart : part grow.amount remain i < 2 ^ 31 := by unfold part; split <;> omega
      have hfirst := tdiv_mul_le (part_nonneg hamount hremain i) cfg.num
      have hsmall : worth grow.amount remain cfg.num (k + 1) i * cfg.num < 2 ^ 32 := by
        simp only [worth, if_neg hn, Int.add_mul]
        omega
      have hnonneg := worth_nonneg hamount hremain hnum.le (k + 1) i
      have hle : worth grow.amount remain cfg.num (k + 1) i ≤ worth grow.amount remain cfg.num (k + 1) i * cfg.num :=
        le_mul_of_one_le_right hnonneg (by omega)
      have hall := compensateLoop_total hnum hamount hremain (k + 1) (fun j hj => decide_eq_true hj)
        (show total [] + _ < _ by rw [total, sumOf_nil]; omega) h
      refine ⟨i, le_refl i, records', h, ?_⟩
      rw [hall, total, sumOf_nil, Int.zero_add]
      exact hover

/-- The record of a period that pays a negative amount counts nearly `2 ^ 32` packages. -/
theorem compensateLoop_debt (hperiod : grow.period ≠ 0) (hnum : 0 < cfg.num) (hint : -2 ^ 31 ≤ grow.amount)
    (hdebt : grow.amount < 0) (hn : grow.amount.tdiv cfg.num ≠ 0) {remain o : ℤ} (hoint : o < 2 ^ 31) (k : ℕ) :
    ∀ i, (∀ j, i ≤ j → part grow.amount remain j = grow.amount) → ∃ m, i ≤ m ∧ ∃ records',
      compensateLoop grow cfg level updateTime remain (fun j => decide (m ≤ j)) (k + 1) i [] = .ok records' ∧
        o < total records' * cfg.num := by
  induction k with
  | zero =>
    intro i hpart
    obtain ⟨records', h⟩ := @compensateLoop_ok grow updateTime cfg level hperiod hnum.ne' remain (fun j => decide (i ≤ j)) 1 i []
    refine ⟨i, le_refl i, records', h, ?_⟩
    have hn' : (part grow.amount remain i).tdiv cfg.num ≠ 0 := by rwa [hpart i (le_refl i)]
    obtain ⟨next, hrest, hnext⟩ := compensateLoop_step hnum.ne' hn' h
    obtain ⟨old, hold, hwritten⟩ := hnext.resolve_right fun hf => Bool.noConfusion ((decide_eq_true (le_refl i)).symm.trans hf.1)
    have hempty : total [] = 0 := rfl
    have hpackages : grow.amount.tdiv cfg.num ≤ 0 := by
      have hneg := Int.tdiv_nonneg (Int.neg_nonneg_of_nonpos hdebt.le) hnum.le
      rw [Int.neg_tdiv] at hneg
      omega
    have hcost : grow.amount ≤ grow.amount.tdiv cfg.num * cfg.num := by
      have hle := tdiv_mul_le (Int.neg_nonneg_of_nonpos hdebt.le) cfg.num
      rw [Int.neg_tdiv, Int.neg_mul] at hle
      omega
    have hlow : grow.amount.tdiv cfg.num * cfg.num ≤ grow.amount.tdiv cfg.num := by
      have hle := Int.mul_le_mul_of_nonpos_left hpackages (show (1 : ℤ) ≤ cfg.num by omega)
      rwa [Int.mul_one] at hle
    rw [hpart i (le_refl i), hempty, Int.zero_add, gain] at hwritten
    have htotal : total next = grow.amount.tdiv cfg.num + 2 ^ 32 := by omega
    rw [← Except.ok.inj hrest, htotal, Int.add_mul]
    have hwraps : (2 : ℤ) ^ 32 ≤ 2 ^ 32 * cfg.num := le_mul_of_one_le_right (by decide) (by omega)
    omega
  | succ k ih =>
    intro i hpart
    obtain ⟨m, hm, records', h, hwritten⟩ := ih (i + 1) fun j hj => hpart j (by omega)
    have hn' : (part grow.amount remain i).tdiv cfg.num ≠ 0 := by rwa [hpart i (le_refl i)]
    refine ⟨m, by omega, records', ?_, hwritten⟩
    rw [compensateLoop_skip hnum.ne' hn' (decide_eq_false (by omega))]
    exact h

theorem compensateLoop_not_debtFree (hperiod : grow.period ≠ 0) (hnum : 0 < cfg.num) (hint : -2 ^ 31 ≤ grow.amount)
    (hdebt : grow.amount < 0) {remain o : ℤ} (hoint : o < 2 ^ 31) {k : ℕ} {i : ℤ} (hi : 0 ≤ i)
    (h : ¬ DebtFree grow.amount remain cfg.num k i) : ∃ stored records',
      compensateLoop grow cfg level updateTime remain stored k i [] = .ok records' ∧ o < total records' * cfg.num := by
  unfold DebtFree at h
  push Not at h
  obtain ⟨hn, hk, hfirst⟩ := h
  by_cases hremain : i = 0 ∧ remain ≠ 0
  · obtain ⟨hone, hzero⟩ := hfirst hremain.1 hremain.2
    obtain ⟨k, rfl⟩ : ∃ l, k = l + 2 := ⟨k - 2, by omega⟩
    obtain ⟨m, hm, records', hloop, hwritten⟩ := @compensateLoop_debt grow updateTime cfg level hperiod hnum hint hdebt hn
      remain o hoint k (i + 1) fun j hj => if_neg (by omega)
    have hn' : (part grow.amount remain i).tdiv cfg.num ≠ 0 := by rwa [part, if_pos hremain]
    refine ⟨fun j => decide (m ≤ j), records', ?_, hwritten⟩
    rw [compensateLoop_skip hnum.ne' hn' (decide_eq_false (by omega))]
    exact hloop
  · obtain ⟨k, rfl⟩ : ∃ l, k = l + 1 := ⟨k - 1, by omega⟩
    obtain ⟨m, hm, records', hloop, hwritten⟩ := @compensateLoop_debt grow updateTime cfg level hperiod hnum hint hdebt hn
      remain o hoint k i fun j hj => if_neg (by omega)
    exact ⟨_, records', hloop, hwritten⟩

/-- What `item_get` has compensated never costs more than the overflow. -/
def CompensatesAtMost (gs : List ItemGrowInfo) (cfgs : List CompensateCfg) (level create now count updateTime : ℤ) : Prop :=
  ∀ r, calcItemGrow gs create now count updateTime = .ok r → r.modified = true → r.overFlow ≠ 0 →
    ∀ cfg, getCompensateCfg cfgs level = some cfg → ∀ stored records records',
      compensateItem (dropOver now gs) cfgs level now r.overFlow updateTime stored records = .ok records' →
        (total records' - total records) * cfg.num ≤ r.overFlow

/-- Nothing is compensated; no period pays a negative amount; or what still fitted under the limit, in whole periods,
and the periods counted in excess are worth no more than what the division by the cost of a package loses. -/
def Covered (grow : ItemGrowInfo) (cfg : CompensateCfg) (create now count updateTime : ℤ) : Prop :=
  let free := room grow.limit (countBefore grow create now count updateTime)
  let grown := periodsGrown grow create now updateTime
  let periods := periodsCompensated grow now updateTime
  let most := max (mostPeriods grow) 0
  let first := grow.amount - free % grow.amount
  grow.period = 0 ∨ SamePeriod grow updateTime now ∨ grown * grow.amount ≤ grow.limit - countBefore grow create now count updateTime ∨
    grown * grow.amount = 0 ∨
    0 < grown * grow.amount ∧ (updateTime ≤ 0 ∨ cfg.num = 0 ∨ periods ≤ 0 ∨
      if grow.amount < 0 then
        DebtFree grow.amount ((grown * grow.amount - free).tmod grow.amount) cfg.num
          (periods - firstPeriod grow now updateTime) (firstPeriod grow now updateTime)
      else if periods ≤ mostPeriods grow then
        first.tdiv cfg.num = 0 ∨
          (periods - grown + free / grow.amount) * grow.amount ≤
            (periods - 1) * grow.amount.tmod cfg.num + first.tmod cfg.num
      else free ≤ (grown - most) * grow.amount + most * grow.amount.tmod cfg.num)

theorem part_first {amount grown free o : ℤ} (hamount : 0 < amount) (ho : o = grown * amount - free) (hpos : 0 < o) :
    part amount (o.tmod amount) 0 = amount - free % amount := by
  have hsplit := mul_ediv_add_emod free amount
  have hlow := emod_nonneg free hamount.ne'
  have hhigh := emod_lt_of_pos free hamount
  rw [tmod_eq_emod_of_nonneg hpos.le, part]
  by_cases hzero : free % amount = 0
  · have hmod : o % amount = 0 := by
      have hmul : o = amount * (grown - free / amount) := by
        rw [Int.mul_sub, Int.mul_comm amount grown]
        omega
      rw [hmul, mul_emod_right]
    rw [if_neg fun h => h.2 hmod, hzero, Int.sub_zero]
  · have hmod : o % amount = amount - free % amount := by
      have hmul : o = (amount - free % amount) + amount * (grown - free / amount - 1) := by
        rw [Int.mul_sub, Int.mul_sub, Int.mul_comm amount grown, Int.mul_one]
        omega
      rw [hmul, add_mul_emod_self_left, emod_eq_of_lt (by omega) (by omega)]
    rw [if_pos ⟨rfl, by omega⟩, hmod]

theorem worth_le_iff {amount grown free periods most num o : ℤ} (hamount : 0 < amount) (ho : o = grown * amount - free)
    (hpos : 0 < o) :
    worth amount (o.tmod amount) num (periods - if periods > most then periods - most else 0).toNat
        (if periods > most then periods - most else 0) * num ≤ o ↔
      periods ≤ 0 ∨
        if periods ≤ most then
          (amount - free % amount).tdiv num = 0 ∨
            (periods - grown + free / amount) * amount ≤ (periods - 1) * amount.tmod num + (amount - free % amount).tmod num
        else free ≤ (grown - max most 0) * amount + max most 0 * amount.tmod num := by
  have hlost := tdiv_mul_add_tmod amount num
  by_cases hle : periods ≤ most
  · rw [if_neg (by omega), if_pos hle, Int.sub_zero]
    by_cases hnone : periods ≤ 0
    · have hzero : periods.toNat = 0 := by omega
      rw [hzero, worth, Int.zero_mul]
      exact iff_of_true hpos.le (.inl hnone)
    · obtain ⟨m, hm⟩ : ∃ m : ℕ, periods.toNat = m + 1 := ⟨periods.toNat - 1, by omega⟩
      have hm' : (m : ℤ) = periods - 1 := by omega
      rw [or_iff_right hnone, hm, worth, part_first hamount ho hpos, Int.zero_add, worth_later m Int.zero_lt_one]
      by_cases hstop : (amount - free % amount).tdiv num = 0
      · rw [if_pos hstop, Int.zero_mul]
        exact iff_of_true hpos.le (.inl hstop)
      · have hlost' := tdiv_mul_add_tmod (amount - free % amount) num
        have hsplit := mul_ediv_add_emod free amount
        have hcost : ((amount - free % amount).tdiv num + (periods - 1) * amount.tdiv num) * num =
            (amount - free % amount - (amount - free % amount).tmod num) + (periods - 1) * (amount - amount.tmod num) := by
          calc ((amount - free % amount).tdiv num + (periods - 1) * amount.tdiv num) * num
              = (amount - free % amount).tdiv num * num + (periods - 1) * (amount.tdiv num * num) := by ring
            _ = _ := by rw [← eq_sub_iff_add_eq.mpr hlost', ← eq_sub_iff_add_eq.mpr hlost]
        rw [if_neg hstop, or_iff_right hstop, hm', ho, hcost]
        constructor
        · intro h
          linarith
        · intro h
          linarith
  · have hlate : 0 < periods - most := by omega
    have hcount : periods - (periods - most) = most := Int.sub_sub_self periods most
    have hcost : max most 0 * amount.tdiv num * num = max most 0 * (amount - amount.tmod num) := by
      rw [Int.mul_assoc, ← eq_sub_iff_add_eq.mpr hlost]
    rw [if_pos (by omega), if_neg hle, hcount, worth_later _ hlate, ofNat_toNat, hcost, ho]
    constructor
    · intro h
      exact .inr (by linarith)
    · rintro (hnone | h)
      · have hzero : max most 0 = 0 := by omega
        rw [hzero, Int.zero_mul]
        omega
      · linarith

theorem capped_over {limit old g : ℤ} (h : ¬ g ≤ limit - old) : (capped limit old g).2 = g - room limit old := by
  rw [capped, if_pos (by omega), room]
  simp only
  omega

theorem debtFree_toNat {amount remain num k i : ℤ} :
    DebtFree amount remain num (k.toNat : ℤ) i ↔ DebtFree amount remain num k i := by
  have hnone : ((k.toNat : ℤ) ≤ 0) ↔ k ≤ 0 := by omega
  have hone : ((k.toNat : ℤ) = 1) ↔ k = 1 := by omega
  rw [DebtFree, hnone, hone, DebtFree]

/-- What the loop writes is worth no more than the overflow `o`. -/
def Affordable (grow : ItemGrowInfo) (cfg : CompensateCfg) (now updateTime o : ℤ) : Prop :=
  let k := periodsCompensated grow now updateTime - firstPeriod grow now updateTime
  if grow.amount < 0 then DebtFree grow.amount (o.tmod grow.amount) cfg.num k (firstPeriod grow now updateTime)
  else worth grow.amount (o.tmod grow.amount) cfg.num k.toNat (firstPeriod grow now updateTime) * cfg.num ≤ o

theorem firstPeriod_nonneg (grow : ItemGrowInfo) (now updateTime : ℤ) : 0 ≤ firstPeriod grow now updateTime := by
  unfold firstPeriod
  split <;> omega

theorem affordable_iff {o : ℤ} (hamount : grow.amount ≠ 0)
    (ho : o = periodsGrown grow create now updateTime * grow.amount - room grow.limit (countBefore grow create now count updateTime))
    (hpos : 0 < o) : Affordable grow cfg now updateTime o ↔ periodsCompensated grow now updateTime ≤ 0 ∨
      if grow.amount < 0 then
        DebtFree grow.amount (o.tmod grow.amount) cfg.num
          (periodsCompensated grow now updateTime - firstPeriod grow now updateTime) (firstPeriod grow now updateTime)
      else if periodsCompensated grow now updateTime ≤ mostPeriods grow then
        (grow.amount - room grow.limit (countBefore grow create now count updateTime) % grow.amount).tdiv cfg.num = 0 ∨
          (periodsCompensated grow now updateTime - periodsGrown grow create now updateTime +
            room grow.limit (countBefore grow create now count updateTime) / grow.amount) * grow.amount ≤
            (periodsCompensated grow now updateTime - 1) * grow.amount.tmod cfg.num +
              (grow.amount - room grow.limit (countBefore grow create now count updateTime) % grow.amount).tmod cfg.num
      else room grow.limit (countBefore grow create now count updateTime) ≤
        (periodsGrown grow create now updateTime - max (mostPeriods grow) 0) * grow.amount +
          max (mostPeriods grow) 0 * grow.amount.tmod cfg.num := by
  unfold Affordable
  by_cases hdebt : grow.amount < 0
  · simp only [hdebt, if_true]
    refine (or_iff_right_of_imp fun hnone => .inr (.inl ?_)).symm
    have hfirst := firstPeriod_nonneg grow now updateTime
    omega
  · simp only [hdebt, if_false]
    exact worth_le_iff (by omega) ho hpos

section Called

variable (hperiod : grow.period ≠ 0) (hend : now < grow.endTime) (hbegin : grow.beginTime ≤ now)
  (hcfg : getCompensateCfg cfgs level = some cfg) {o : ℤ} (hpos : 0 < o)
include hperiod hend hbegin hcfg hpos

theorem compensateItem_le (hamount : grow.amount ≠ 0)
    (hcovered : updateTime ≤ 0 ∨ cfg.num = 0 ∨ Affordable grow cfg now updateTime o) {stored : ℤ → Bool}
    {records records' : List Compensate}
    (h : compensateItem (grow :: rest) cfgs level now o updateTime stored records = .ok records') :
    (total records' - total records) * cfg.num ≤ o := by
  by_cases htime : updateTime ≤ 0
  · rw [compensateItem, if_pos (.inr htime)] at h
    rw [← Except.ok.inj h, Int.sub_self, Int.zero_mul]
    exact hpos.le
  by_cases hnum : cfg.num = 0
  · rw [hnum, Int.mul_zero]
    exact hpos.le
  have hworth := (hcovered.resolve_left htime).resolve_left hnum
  rw [compensateItem_eq hend hbegin hperiod hcfg hamount hpos (by omega)] at h
  have hremain : 0 ≤ o.tmod grow.amount := tmod_nonneg _ hpos.le
  unfold Affordable at hworth
  by_cases hdebt : grow.amount < 0
  · simp only [hdebt, if_true] at hworth
    have hle := compensateLoop_first hnum hremain (debtFree_toNat.mpr hworth) h
    have hmod : o.tmod grow.amount ≤ o := by
      have hsplit := tdiv_mul_add_tmod o grow.amount
      have hcost := tdiv_mul_nonneg hpos.le grow.amount
      omega
    exact hle.trans hmod
  · simp only [hdebt, if_false] at hworth
    exact (compensateLoop_le hnum (by omega) hremain _ h).trans hworth

theorem compensateItem_over (hamount : grow.amount ≠ 0) (hint : IsInt grow.amount) (hoint : o < 2 ^ 31)
    (htime : ¬ updateTime ≤ 0) (hnum : 0 < cfg.num) (hworth : ¬ Affordable grow cfg now updateTime o) :
    ∃ stored records', compensateItem (grow :: rest) cfgs level now o updateTime stored [] = .ok records' ∧
      o < (total records' - total []) * cfg.num := by
  have hcall (stored : ℤ → Bool) := @compensateItem_eq grow rest now updateTime cfgs cfg level o stored [] hend hbegin hperiod
    hcfg hamount hpos (by omega)
  have hempty (records' : List Compensate) : total records' - total [] = total records' := Int.sub_zero _
  simp only [hcall, hempty]
  have hremain : 0 ≤ o.tmod grow.amount := tmod_nonneg _ hpos.le
  unfold Affordable at hworth
  by_cases hdebt : grow.amount < 0
  · simp only [hdebt, if_true] at hworth
    exact compensateLoop_not_debtFree hperiod hnum hint.1 hdebt hoint (firstPeriod_nonneg grow now updateTime)
      (mt debtFree_toNat.mp hworth)
  · simp only [hdebt, if_false, not_le] at hworth
    have hsmall : o.tmod grow.amount < 2 ^ 31 := (tmod_lt_of_pos o (by omega)).trans hint.2
    obtain ⟨m, -, hwritten⟩ := compensateLoop_over hperiod hnum (by omega) hint.2 hremain hsmall hpos.le hoint _ _ hworth
    exact ⟨_, hwritten⟩

end Called

theorem dropOver_head (hrule : dropOver now gs = grow :: rest) : now < grow.endTime := by
  have h := List.head?_dropWhile_not (fun g : ItemGrowInfo => decide (¬ g.endTime > now)) gs
  rw [dropOver] at hrule
  rw [hrule] at h
  simpa using h

section Rule

variable (hrule : dropOver now gs = grow :: rest) (hbegin : grow.beginTime ≤ now)
  (hcfg : getCompensateCfg cfgs level = some cfg)
  (hgrown : IsInt (countBefore grow create now count updateTime + periodsGrown grow create now updateTime * grow.amount))
  (hover : IsInt (capped grow.limit (countBefore grow create now count updateTime)
    (periodsGrown grow create now updateTime * grow.amount)).2)
include hrule hbegin hcfg hgrown hover

theorem CompensatesAtMost.covered (hint : IsInt grow.amount) (hnonneg : 0 ≤ cfg.num)
    (hmost : CompensatesAtMost gs cfgs level create now count updateTime) :
    Covered grow cfg create now count updateTime := by
  by_cases hperiod : grow.period = 0
  · exact .inl hperiod
  by_cases hsame : SamePeriod grow updateTime now
  · exact .inr (.inl hsame)
  by_cases hlimit : periodsGrown grow create now updateTime * grow.amount ≤
      grow.limit - countBefore grow create now count updateTime
  · exact .inr (.inr (.inl hlimit))
  by_cases hzero : periodsGrown grow create now updateTime * grow.amount = 0
  · exact .inr (.inr (.inr (.inl hzero)))
  -- there is an overflow, and it is compensated
  have hcall := hmost _ (calcItemGrow_over hrule hbegin hperiod hsame hgrown hover) rfl
  have hoint := hover.2
  simp only [capped_over hlimit] at hoint
  simp only [capped_over hlimit, hrule] at hcall
  obtain ⟨o, ho⟩ : ∃ o, o = periodsGrown grow create now updateTime * grow.amount -
      room grow.limit (countBefore grow create now count updateTime) := ⟨_, rfl⟩
  have hroom : room grow.limit (countBefore grow create now count updateTime) =
      max (grow.limit - countBefore grow create now count updateTime) 0 := rfl
  rw [← ho] at hcall hoint
  have hcalled := hcall (by omega) cfg hcfg
  have hpos : 0 < o := by
    by_contra hneg
    have hnone := hcalled (fun _ => true) [] [] (if_pos (.inl (by omega)))
    rw [Int.sub_self, Int.zero_mul] at hnone
    omega
  refine .inr (.inr (.inr (.inr ⟨by omega, ?_⟩)))
  have hamount : grow.amount ≠ 0 := fun h => hzero (by rw [h, Int.mul_zero])
  by_cases htime : updateTime ≤ 0
  · exact .inl htime
  by_cases hnum : cfg.num = 0
  · exact .inr (.inl hnum)
  have hworth : Affordable grow cfg now updateTime o := by
    by_contra hneg
    obtain ⟨stored, records', hitem, hmore⟩ := @compensateItem_over grow rest now updateTime cfg cfgs level hperiod
      (dropOver_head hrule) hbegin hcfg o hpos hamount hint hoint htime (by omega) hneg
    have hle := hcalled stored [] records' hitem
    omega
  have hcovered := (affordable_iff hamount ho hpos).mp hworth
  rw [ho] at hcovered
  exact .inr (.inr hcovered)

theorem Covered.compensates (hcovered : Covered grow cfg create now count updateTime) {r : GrowResult}
    (hr : calcItemGrow gs create now count updateTime = .ok r) (hne : r.overFlow ≠ 0) {stored : ℤ → Bool}
    {records records' : List Compensate}
    (hitem : compensateItem (dropOver now gs) cfgs level now r.overFlow updateTime stored records = .ok records') :
    (total records' - total records) * cfg.num ≤ r.overFlow := by
  by_cases hsame : SamePeriod grow updateTime now
  · exact absurd (calcItemGrow_same hrule hbegin hsame hr) hne
  by_cases hperiod : grow.period = 0
  · exact absurd (by rw [SamePeriod, hperiod, Int.tdiv_zero, Int.tdiv_zero]) hsame
  have hr' := calcItemGrow_over hrule hbegin hperiod hsame hgrown hover
  obtain rfl := ok_unique hr' hr
  by_cases hlimit : periodsGrown grow create now updateTime * grow.amount ≤
      grow.limit - countBefore grow create now count updateTime
  · refine absurd ?_ hne
    rw [capped, if_neg (by omega)]
  have hroom : room grow.limit (countBefore grow create now count updateTime) =
      max (grow.limit - countBefore grow create now count updateTime) 0 := rfl
  obtain ⟨o, ho⟩ : ∃ o, o = periodsGrown grow create now updateTime * grow.amount -
      room grow.limit (countBefore grow create now count updateTime) := ⟨_, rfl⟩
  simp only [capped_over hlimit, hrule, ← ho] at hne hitem ⊢
  obtain ⟨hpositive, hcost⟩ := (((hcovered.resolve_left hperiod).resolve_left hsame).resolve_left hlimit).resolve_left
    (by omega)
  have hpos : 0 < o := by omega
  have hamount : grow.amount ≠ 0 := fun h => by rw [h, Int.mul_zero] at hpositive; exact Int.lt_irrefl 0 hpositive
  refine compensateItem_le hperiod (dropOver_head hrule) hbegin hcfg hpos hamount ?_ hitem
  apply hcost.imp_right
  apply Or.imp_right
  intro hworth
  apply (affordable_iff hamount ho hpos).mpr
  rw [ho]
  exact hworth

end Rule

/-- Of packages that do not cost less than nothing, what is compensated costs no more than the overflow, whatever is
stored, exactly if `Covered` says so; and of all packages, if it says so. -/
theorem compensated_iff (hfits : ∀ grow rest, dropOver now gs = grow :: rest →
      IsInt grow.amount ∧
      IsInt (countBefore grow create now count updateTime + periodsGrown grow create now updateTime * grow.amount) ∧
      IsInt (capped grow.limit (countBefore grow create now count updateTime)
        (periodsGrown grow create now updateTime * grow.amount)).2) :
    ((∀ grow rest, dropOver now gs = grow :: rest → grow.beginTime ≤ now →
        ∀ cfg, getCompensateCfg cfgs level = some cfg → Covered grow cfg create now count updateTime) →
      CompensatesAtMost gs cfgs level create now count updateTime) ∧
    ((∀ cfg, getCompensateCfg cfgs level = some cfg → 0 ≤ cfg.num) →
      CompensatesAtMost gs cfgs level create now count updateTime →
      ∀ grow rest, dropOver now gs = grow :: rest → grow.beginTime ≤ now →
        ∀ cfg, getCompensateCfg cfgs level = some cfg → Covered grow cfg create now count updateTime) := by
  constructor
  · intro hcovered r hr _ hne cfg hcfg stored records records' hitem
    cases hrule : dropOver now gs with
    | nil =>
      unfold calcItemGrow at hr
      simp only [hrule] at hr
      exact absurd (by rw [← Except.ok.inj hr]) hne
    | cons grow rest =>
      obtain ⟨-, hgrown, hover⟩ := hfits grow rest hrule
      by_cases hbegin : grow.beginTime ≤ now
      · exact (hcovered grow rest hrule hbegin cfg hcfg).compensates hrule hbegin hcfg hgrown hover hr hne hitem
      · unfold calcItemGrow at hr
        simp only [hrule, gt_iff_lt, not_le.mp hbegin, if_true] at hr
        exact absurd (by rw [← Except.ok.inj hr]) hne
  · intro hnum hmost grow rest hrule hbegin cfg hcfg
    obtain ⟨hint, hgrown, hover⟩ := hfits grow rest hrule
    exact hmost.covered hrule hbegin hcfg hgrown hover hint (hnum cfg hcfg)

end Sum

def growthOfFive : ItemGrowInfo := ⟨100, 1000, 10, 1, 5, 0⟩

def packageForOne : CompensateCfg := ⟨1, 0, 100, 7⟩

theorem compensated_full : CompensatesAtMost [growthOfFive] [packageForOne] 1 0 205 5 105 := by
  have hrule : ∀ grow rest, dropOver 205 [growthOfFive] = grow :: rest → grow = growthOfFive :=
    fun grow rest h => (List.cons.inj h).1.symm
  refine (@compensated_iff [growthOfFive] 0 205 5 105 [packageForOne] 1 ?_).1 ?_
  · intro grow rest h
    obtain rfl := hrule grow rest h
    exact ⟨by decide, by decide, by decide⟩
  · intro grow rest h _ cfg hcfg
    obtain rfl := hrule grow rest h
    obtain rfl : packageForOne = cfg := Option.some.inj hcfg
    unfold Covered
    decide

/-- Without items only five overflow, and ten are compensated. -/
theorem compensated_twice :
    (calcItemGrow [growthOfFive] 0 205 0 105).toOption.map GrowResult.overFlow = some 5 ∧
      (compensateItem [growthOfFive] [packageForOne] 1 205 5 105 (fun _ => true) []).toOption.map total = some 10 ∧
      ¬ CompensatesAtMost [growthOfFive] [packageForOne] 1 0 205 0 105 := by
  refine ⟨by decide +kernel, by decide +kernel, fun h => ?_⟩
  have hcovered := @CompensatesAtMost.covered growthOfFive [] [growthOfFive] 0 205 0 105 packageForOne [packageForOne] 1
    rfl (by decide) rfl (by decide) (by decide) (by decide) (by decide) h
  unfold Covered at hcovered
  exact absurd hcovered (by decide)

end CServer.Modules
