import CServer.Lib.Exec
import CServer.Lib.Memory

/-! # `consume/Trade.lua`: assessed prices

A `SaleRecord` has a slot for each of the last 14 days, the average of the day it was last used on and the price it
computed last. It is brought up to date where it is used. The row in the database is written with each sale and has all
of this but the price. Prices are rational numbers.
-/
namespace CServer.Consume
open CServer.Lib Function List
open Option hiding mem_map map map_map

/-! ## The code -/

/-- `cfg and cfg.assess_price.value or 0`, and the start of the day on which the server was opened. -/
structure SaleConfig where
  assessPrice : ℚ
  referenceTime : ℤ

def daySec : ℤ := 24 * 3600

def assessPricePeriod : ℕ := 14

def maxRecordLength : ℕ := 14

structure SaleRecord where
  avgPrice : ℕ → ℚ
  sales : ℕ → ℤ
  todayAvgPrice : ℚ
  todaySales : ℤ
  lastTradeTime : ℤ
  todayAssessPrice : ℚ
  dbExist : Bool

structure SaleRow where
  avgPrice : ℕ → ℚ
  sales : ℕ → ℤ
  todayAvgPrice : ℚ
  todaySales : ℤ
  lastTradeTime : ℤ

variable (cfg : SaleConfig)

def SaleRecord.new : Option SaleRow → SaleRecord
  | none => ⟨fun _ => 0, fun _ => 0, 0, 0, 0, cfg.assessPrice, false⟩
  | some row =>
    ⟨row.avgPrice, row.sales, row.todayAvgPrice, row.todaySales, row.lastTradeTime, cfg.assessPrice, true⟩

/-- The slots of the `len` days before the one of slot `idx`. -/
def getLastPeriodIndexTb (idx len : ℕ) : List ℕ :=
  if len < idx then List.range' (idx - len) len
  else List.range' (maxRecordLength + idx - len) (len - idx + 1) ++ List.range' 1 (idx - 1)

def mod (a : ℤ) (b : ℕ) : ℕ := if a % b = 0 then b else (a % b).toNat

variable (r : SaleRecord)

def SaleRecord.calcTodayAssessPrice (p : ℤ) : ℚ :=
  ((getLastPeriodIndexTb (mod p maxRecordLength) assessPricePeriod).map r.avgPrice).sum / assessPricePeriod

def SaleConfig.period (t : ℤ) : ℤ :=
  if t = 0 then 0 else ⌈((t - cfg.referenceTime : ℤ) : ℚ) / daySec⌉

def getPeriod (t : ℤ) : Except Fault ℤ := do
  assert (decide (t = 0 ∨ cfg.referenceTime < t))
  .ok (cfg.period t)

def SaleRecord.fill (is : List ℕ) (avg : ℕ → ℚ) (sales : ℕ → ℤ) : SaleRecord :=
  is.foldl (fun r i => { r with avgPrice := update r.avgPrice i (avg i), sales := update r.sales i (sales i) }) r

def SaleRecord.refresh (now : ℤ) (r : SaleRecord) : Except Fault SaleRecord := do
  let p1 ← getPeriod cfg r.lastTradeTime
  let p2 ← getPeriod cfg now
  assert (decide (p1 ≤ p2))
  if p1 = p2 then .ok r
  else
    let own := mod p1 maxRecordLength
    let r :=
      if p2 - p1 ≥ maxRecordLength ∨ p1 = 0 then
        r.fill (List.range' 1 maxRecordLength) (fun _ => r.todayAssessPrice) fun _ => 0
      else
        r.fill (getLastPeriodIndexTb (mod p2 maxRecordLength) (p2 - p1).toNat)
          (fun i => if i = own then r.todayAvgPrice else r.todayAssessPrice)
          fun i => if i = own then r.todaySales else 0
    let price := r.calcTodayAssessPrice p2
    .ok { r with todayAssessPrice := price, todayAvgPrice := price, todaySales := 0, lastTradeTime := now }

def SaleRecord.getTodayAssessPrice (now : ℤ) (r : SaleRecord) : Except Fault (SaleRecord × ℚ) := do
  let r ← r.refresh cfg now
  .ok (r, r.todayAssessPrice)

def SaleRecord.getAvgPrice (now day : ℤ) (r : SaleRecord) : Except Fault (SaleRecord × ℚ) := do
  assert (decide (day.natAbs ≤ maxRecordLength))
  let r ← r.refresh cfg now
  if day < 0 then do
    let p ← getPeriod cfg now
    match getLastPeriodIndexTb (mod p maxRecordLength) day.natAbs with
    | [] => .error .outOfBounds
    | i :: _ => .ok (r, r.avgPrice i)
  else .ok (r, r.todayAvgPrice)

def SaleRecord.row : SaleRow := ⟨r.avgPrice, r.sales, r.todayAvgPrice, r.todaySales, r.lastTradeTime⟩

/-- An `update` changes a row that is there, an `insert` adds one that is not. -/
def SaleRecord.updateTodaySaleRecord (now : ℤ) (avg : ℚ) (sales : ℤ) (r : SaleRecord)
    (row : Option SaleRow) : Except Fault (SaleRecord × Option SaleRow) := do
  let r ← r.refresh cfg now
  let r := { r with todayAvgPrice := avg, todaySales := sales }
  if r.dbExist then .ok (r, row.map fun _ => r.row)
  else .ok ({ r with dbExist := true }, row <|> some r.row)

/-! ## Runs -/

inductive SaleOp
  | sell (now : ℤ) (avg : ℚ) (sales : ℤ)
  | assess (now : ℤ)
  | avgPrice (now day : ℤ)
  | reload

/-- `clock` and `lost` are not in the source: when the record was used last, and whether it has been loaded since without
the price that it had. -/
structure SaleRun where
  record : SaleRecord
  row : Option SaleRow
  clock : ℤ
  lost : Bool

def SaleRun.init : SaleRun := ⟨SaleRecord.new cfg none, none, 0, false⟩

def SaleRecord.forgets (w : SaleRow) : Bool :=
  decide (cfg.period r.lastTradeTime ≠ cfg.period w.lastTradeTime ∨ r.todayAssessPrice ≠ cfg.assessPrice)

variable (s : SaleRun)

def saleStep : SaleOp → Except Fault (SaleRun × Option ℚ)
  | .sell now avg sales => do
    let (record, row) ← s.record.updateTodaySaleRecord cfg now avg sales s.row
    .ok (⟨record, row, now, false⟩, none)
  | .assess now => do
    let (record, price) ← s.record.getTodayAssessPrice cfg now
    .ok (⟨record, s.row, now, false⟩, some price)
  | .avgPrice now day => do
    let (record, price) ← s.record.getAvgPrice cfg now day
    .ok (⟨record, s.row, now, false⟩, some price)
  | .reload =>
    .ok (⟨SaleRecord.new cfg s.row, s.row, s.clock, s.lost || s.row.any (s.record.forgets cfg)⟩, none)

/-! ## Ledgers -/

/-- The closing averages of all days before `day`, and of `day` the average so far and the price. -/
structure Ledger where
  closing : ℤ → ℚ
  day : ℤ
  avg : ℚ
  price : ℚ

def mean14 (closing : ℤ → ℚ) (p : ℤ) : ℚ := ((List.range 14).map fun k : ℕ => closing (p - 14 + k)).sum / 14

variable (l : Ledger)

/-- Days go by up to `p`: the current one closes at its average, those after it at the price it had. -/
def Ledger.closed (p d : ℤ) : ℚ :=
  if d = l.day then l.avg else if l.day < d ∧ d < p then l.price else l.closing d

/-- The first use on day `p` gives it a price, which is its average until something is sold. -/
def Ledger.touch (p : ℤ) : Ledger :=
  if p = l.day then l else ⟨l.closed p, p, mean14 (l.closed p) p, mean14 (l.closed p) p⟩

def Ledger.blank : Ledger := ⟨fun _ => cfg.assessPrice, 0, cfg.assessPrice, cfg.assessPrice⟩

def ledgerStep (l : Ledger) : SaleOp → Ledger × Option ℚ
  | .sell now avg _ => ({ l.touch (cfg.period now) with avg := avg }, none)
  | .assess now => (l.touch (cfg.period now), some (l.touch (cfg.period now)).price)
  | .avgPrice now day =>
    let l := l.touch (cfg.period now)
    (l, some (if day < 0 then l.closing (l.day + day) else l.avg))
  | .reload => (l, none)

/-! ## Days and slots -/

theorem SaleConfig.period_pos {t : ℤ} (h0 : 0 < t) (href : cfg.referenceTime < t) : 0 < cfg.period t := by
  have hsec : (0 : ℚ) < daySec := by norm_num [daySec]
  have hdiff : (0 : ℚ) < (t - cfg.referenceTime : ℤ) := by
    have h : 0 < t - cfg.referenceTime := by omega
    exact_mod_cast h
  rw [SaleConfig.period, if_neg (by omega)]
  exact Int.ceil_pos.mpr (div_pos hdiff hsec)

theorem SaleConfig.period_mono {t t' : ℤ} (h0 : 0 < t) (hle : t ≤ t') : cfg.period t ≤ cfg.period t' := by
  have hsec : (0 : ℚ) ≤ daySec := by norm_num [daySec]
  have hdiff : ((t - cfg.referenceTime : ℤ) : ℚ) ≤ (t' - cfg.referenceTime : ℤ) := by
    have h : t - cfg.referenceTime ≤ t' - cfg.referenceTime := by omega
    exact_mod_cast h
  rw [SaleConfig.period, SaleConfig.period, if_neg (by omega), if_neg (by omega)]
  exact Int.ceil_le_ceil (div_le_div_of_nonneg_right hdiff hsec)

theorem mod_emod (d : ℤ) : mod d 14 = mod (d % 14) 14 := by
  simp only [mod, Nat.cast_ofNat, Int.emod_emod_of_dvd d (dvd_refl (14 : ℤ))]

theorem mod_bounds (d : ℤ) : 1 ≤ mod d 14 ∧ mod d 14 ≤ 14 := by
  unfold mod
  push_cast
  split <;> omega

theorem mod_inj {d d' : ℤ} (h : mod d 14 = mod d' 14) (hlt : d < d' + 14) (hlt' : d' < d + 14) : d = d' := by
  unfold mod at h
  push_cast at h
  split at h <;> split at h <;> omega

theorem lastPeriods_fin : ∀ m : Fin 14, ∀ len : Fin 15, getLastPeriodIndexTb (mod m 14) len =
    (List.range len).map fun k : ℕ => mod (((m : ℕ) : ℤ) - ((len : ℕ) : ℤ) + k) 14 := by
  decide

theorem lastPeriods_eq (p : ℤ) {len : ℕ} (hlen : len ≤ 14) :
    getLastPeriodIndexTb (mod p 14) len = (List.range len).map fun k : ℕ => mod (p - len + k) 14 := by
  obtain ⟨m, hm⟩ : ∃ m : Fin 14, p % 14 = (m : ℕ) :=
    ⟨⟨(p % 14).toNat, by omega⟩, by simp only []; omega⟩
  have hfin := lastPeriods_fin m ⟨len, by omega⟩
  rw [mod_emod p, hm]
  refine hfin.trans (map_congr_left fun k _ => ?_)
  have he : (((m : ℕ) : ℤ) - len + k) % 14 = (p - len + k) % 14 := by omega
  rw [mod_emod, he, ← mod_emod]

theorem mem_lastPeriods (p : ℤ) {len i : ℕ} (hlen : len ≤ 14) :
    i ∈ getLastPeriodIndexTb (mod p 14) len ↔ ∃ d, p - len ≤ d ∧ d < p ∧ mod d 14 = i := by
  rw [lastPeriods_eq p hlen, mem_map]
  constructor
  · rintro ⟨k, hk, rfl⟩
    have := mem_range.mp hk
    exact ⟨p - len + k, by omega, by omega, rfl⟩
  · rintro ⟨d, h1, h2, rfl⟩
    refine ⟨(d - (p - len)).toNat, mem_range.mpr (by omega), ?_⟩
    congr 1
    omega

theorem fill_eq (is : List ℕ) (avg : ℕ → ℚ) (sales : ℕ → ℤ) :
    r.fill is avg sales =
      { r with
        avgPrice := fun i => if i ∈ is then avg i else r.avgPrice i
        sales := fun i => if i ∈ is then sales i else r.sales i } := by
  induction is generalizing r with
  | nil => simp [SaleRecord.fill]
  | cons i is ih =>
    show SaleRecord.fill { r with avgPrice := update r.avgPrice i (avg i), sales := update r.sales i (sales i) } is avg sales = _
    rw [ih]
    congr 1
    · funext j
      by_cases hj : j = i
      · subst hj
        simp [update_self]
      · simp [hj]
    · funext j
      by_cases hj : j = i
      · subst hj
        simp [update_self]
      · simp [hj]

theorem calc_eq {r : SaleRecord} {closing : ℤ → ℚ} {p : ℤ}
    (h : ∀ d, p - 14 ≤ d → d < p → r.avgPrice (mod d 14) = closing d) : r.calcTodayAssessPrice p = mean14 closing p := by
  unfold SaleRecord.calcTodayAssessPrice mean14
  rw [show maxRecordLength = 14 from rfl, show assessPricePeriod = 14 from rfl, lastPeriods_eq p (le_refl 14), map_map]
  congr 2
  refine map_congr_left fun k hk => ?_
  have hk' := mem_range.mp hk
  exact h _ (by push_cast; omega) (by push_cast; omega)

/-! ## Records and ledgers -/

structure Synced (cfg : SaleConfig) (r : SaleRecord) (l : Ledger) : Prop where
  day : cfg.period r.lastTradeTime = l.day
  pos : 0 < l.day
  time : r.lastTradeTime = 0 ∨ cfg.referenceTime < r.lastTradeTime
  avg : r.todayAvgPrice = l.avg
  price : r.todayAssessPrice = l.price
  slots : ∀ d, l.day - 14 ≤ d → d < l.day → r.avgPrice (mod d 14) = l.closing d

structure Ledger.Blank (cfg : SaleConfig) (l : Ledger) : Prop where
  closing : ∀ d, l.closing d = cfg.assessPrice
  avg : l.avg = cfg.assessPrice
  price : l.price = cfg.assessPrice

theorem mean14_const {closing : ℤ → ℚ} {c : ℚ} (p : ℤ) (h : ∀ d, closing d = c) : mean14 closing p = c := by
  unfold mean14
  simp only [h, map_const', length_range, sum_replicate, nsmul_eq_mul]
  push_cast
  ring

theorem Ledger.Blank.touch {cfg : SaleConfig} {l : Ledger} (h : l.Blank cfg) (p : ℤ) : (l.touch p).Blank cfg := by
  have hclosed : ∀ d, l.closed p d = cfg.assessPrice := by
    intro d
    unfold Ledger.closed
    split_ifs
    · exact h.avg
    · exact h.price
    · exact h.closing d
  unfold Ledger.touch
  split_ifs
  · exact h
  · exact ⟨hclosed, mean14_const p hclosed, mean14_const p hclosed⟩

theorem Ledger.touch_day (p : ℤ) : (l.touch p).day = p := by
  unfold Ledger.touch
  split_ifs with h
  · exact h.symm
  · rfl

theorem Ledger.touch_touch (p : ℤ) : (l.touch p).touch p = l.touch p := by
  rw [Ledger.touch, if_pos (l.touch_day p).symm]

section Refresh
variable {cfg : SaleConfig} {r : SaleRecord} {l : Ledger} {now : ℤ}

theorem getPeriod_ok {t : ℤ} (h : t = 0 ∨ cfg.referenceTime < t) : getPeriod cfg t = .ok (cfg.period t) := by
  rw [getPeriod, assert_of (decide_eq_true h)]
  rfl

theorem refresh_later (hlast : r.lastTradeTime = 0 ∨ cfg.referenceTime < r.lastTradeTime)
    (hnow : cfg.referenceTime < now) (hlt : cfg.period r.lastTradeTime < cfg.period now) :
    ∃ sales,
      let avg := if cfg.period now - cfg.period r.lastTradeTime ≥ 14 ∨ cfg.period r.lastTradeTime = 0 then
          fun i => if i ∈ List.range' 1 14 then r.todayAssessPrice else r.avgPrice i
        else fun i =>
          if i ∈ getLastPeriodIndexTb (mod (cfg.period now) 14) (cfg.period now - cfg.period r.lastTradeTime).toNat then
            if i = mod (cfg.period r.lastTradeTime) 14 then r.todayAvgPrice else r.todayAssessPrice
          else r.avgPrice i
      let price := SaleRecord.calcTodayAssessPrice { r with avgPrice := avg } (cfg.period now)
      r.refresh cfg now = .ok ⟨avg, sales, price, 0, now, price, r.dbExist⟩ := by
  rw [SaleRecord.refresh, getPeriod_ok hlast, ok_bind, getPeriod_ok (.inr hnow), ok_bind,
    assert_of (decide_eq_true hlt.le), ok_bind, if_neg hlt.ne, show maxRecordLength = 14 from rfl]
  by_cases hgap : cfg.period now - cfg.period r.lastTradeTime ≥ 14 ∨ cfg.period r.lastTradeTime = 0
  · simp only [Nat.cast_ofNat, if_pos hgap, fill_eq]
    exact ⟨_, rfl⟩
  · simp only [Nat.cast_ofNat, if_neg hgap, fill_eq]
    exact ⟨_, rfl⟩

theorem refresh_same (hlast : r.lastTradeTime = 0 ∨ cfg.referenceTime < r.lastTradeTime)
    (hnow : cfg.referenceTime < now) (heq : cfg.period r.lastTradeTime = cfg.period now) : r.refresh cfg now = .ok r := by
  rw [SaleRecord.refresh, getPeriod_ok hlast, ok_bind, getPeriod_ok (.inr hnow), ok_bind,
    assert_of (decide_eq_true heq.le), ok_bind, if_pos heq]

theorem synced_of_slots (r : SaleRecord) {avg : ℕ → ℚ} (sales : ℕ → ℤ) {closing : ℤ → ℚ} (db : Bool) (hpos : 0 < cfg.period now)
    (hnow : cfg.referenceTime < now)
    (h : ∀ d, cfg.period now - 14 ≤ d → d < cfg.period now → avg (mod d 14) = closing d) :
    Synced cfg
      ⟨avg, sales, SaleRecord.calcTodayAssessPrice { r with avgPrice := avg } (cfg.period now), 0, now,
        SaleRecord.calcTodayAssessPrice { r with avgPrice := avg } (cfg.period now), db⟩
      ⟨closing, cfg.period now, mean14 closing (cfg.period now), mean14 closing (cfg.period now)⟩ :=
  have hcalc := calc_eq (r := { r with avgPrice := avg }) h
  ⟨rfl, hpos, .inr hnow, hcalc, hcalc, h⟩

theorem Synced.refresh (h : Synced cfg r l) (hnow : cfg.referenceTime < now) (hle : l.day ≤ cfg.period now)
    (hgap : cfg.period now = l.day + 14 → l.avg = l.price) :
    ∃ r', r.refresh cfg now = .ok r' ∧ Synced cfg r' (l.touch (cfg.period now)) ∧ r'.dbExist = r.dbExist := by
  have hday := h.day
  by_cases heq : cfg.period now = l.day
  · rw [refresh_same h.time hnow (hday.trans heq.symm), Ledger.touch, if_pos heq]
    exact ⟨r, rfl, h, rfl⟩
  · have hlt : cfg.period r.lastTradeTime < cfg.period now := by omega
    have hpos := h.pos
    obtain ⟨sales, href⟩ := refresh_later h.time hnow hlt
    refine ⟨_, href, ?_, rfl⟩
    rw [Ledger.touch, if_neg heq]
    refine synced_of_slots r _ _ (by omega) hnow fun d h1 h2 => ?_
    have hbounds := mod_bounds d
    rw [hday, h.avg, h.price]
    unfold Ledger.closed
    by_cases hlong : cfg.period now - l.day ≥ 14
    · -- every slot is filled, and the current day is one of the fourteen only if it is the first of them
      have hin : mod d 14 ∈ List.range' 1 14 := mem_range'_1.mpr (by omega)
      rw [if_pos (.inl hlong), if_pos hin]
      by_cases hd : d = l.day
      · rw [if_pos hd]
        exact (hgap (by omega)).symm
      · rw [if_neg hd, if_pos ⟨by omega, h2⟩]
    · rw [if_neg (by omega)]
      by_cases hd : l.day ≤ d
      · have hin : mod d 14 ∈ getLastPeriodIndexTb (mod (cfg.period now) 14) (cfg.period now - l.day).toNat :=
          (mem_lastPeriods _ (by omega)).mpr ⟨d, by omega, h2, rfl⟩
        rw [if_pos hin]
        by_cases hd' : d = l.day
        · rw [if_pos (by rw [hd']), if_pos hd']
        · have hslot : mod d 14 ≠ mod l.day 14 := fun e => hd' (mod_inj e (by omega) (by omega))
          rw [if_neg hslot, if_neg hd', if_pos ⟨by omega, h2⟩]
      · have hout : mod d 14 ∉ getLastPeriodIndexTb (mod (cfg.period now) 14) (cfg.period now - l.day).toNat := by
          intro hin
          obtain ⟨d', h1', h2', he⟩ := (mem_lastPeriods _ (by omega)).mp hin
          have := mod_inj he (by omega) (by omega)
          omega
        rw [if_neg hout, if_neg (by omega), if_neg (by omega)]
        exact h.slots d (by omega) (by omega)

theorem Ledger.Blank.refresh (h : l.Blank cfg) (hlast : r.lastTradeTime = 0) (hprice : r.todayAssessPrice = cfg.assessPrice)
    (h0 : 0 < now) (hnow : cfg.referenceTime < now) :
    ∃ r', r.refresh cfg now = .ok r' ∧ Synced cfg r' (l.touch (cfg.period now)) ∧ r'.dbExist = r.dbExist := by
  have hpos := cfg.period_pos h0 hnow
  have hzero : cfg.period r.lastTradeTime = 0 := by rw [hlast, SaleConfig.period, if_pos rfl]
  obtain ⟨sales, href⟩ := refresh_later (.inl hlast) hnow (by omega)
  have htouch := h.touch (cfg.period now)
  have hday := l.touch_day (cfg.period now)
  have hslots : ∀ d, cfg.period now - 14 ≤ d → d < cfg.period now →
      (if cfg.period now - cfg.period r.lastTradeTime ≥ 14 ∨ cfg.period r.lastTradeTime = 0 then
          fun i => if i ∈ List.range' 1 14 then r.todayAssessPrice else r.avgPrice i
        else fun i =>
          if i ∈ getLastPeriodIndexTb (mod (cfg.period now) 14) (cfg.period now - cfg.period r.lastTradeTime).toNat then
            if i = mod (cfg.period r.lastTradeTime) 14 then r.todayAvgPrice else r.todayAssessPrice
          else r.avgPrice i) (mod d 14) = (l.touch (cfg.period now)).closing d := by
    intro d _ _
    have hbounds := mod_bounds d
    rw [if_pos (.inr hzero), if_pos (mem_range'_1.mpr (by omega)), hprice, htouch.closing]
  have hmean := mean14_const (cfg.period now) htouch.closing
  have hsynced := synced_of_slots r sales r.dbExist hpos hnow hslots
  refine ⟨_, href, ⟨hday.symm, by omega, .inr hnow, ?_, ?_, fun d h1 h2 => ?_⟩, rfl⟩
  · rw [htouch.avg, ← hmean]
    exact hsynced.avg
  · rw [htouch.price, ← hmean]
    exact hsynced.price
  · exact hsynced.slots d (by rw [hday] at h1; exact h1) (by rw [hday] at h2; exact h2)

end Refresh

/-! ## Runs and ledgers -/

/-- The times are those of a clock, and no average of more than 14 days ago is asked for. -/
def SaleOp.Timely : SaleOp → Prop
  | .sell now _ _ | .assess now => 0 < now ∧ cfg.referenceTime < now ∧ s.clock ≤ now
  | .avgPrice now day => (0 < now ∧ cfg.referenceTime < now ∧ s.clock ≤ now) ∧ day.natAbs ≤ 14
  | .reload => True

/-- A record that has lost its price is used on the day after the one it was stored on, and another one either within 13
days or when its average is its price. -/
def SaleRun.UsableAt (now : ℤ) : Prop :=
  (s.lost = true → cfg.period now = cfg.period s.record.lastTradeTime + 1) ∧
    (s.lost = false → cfg.period s.record.lastTradeTime ≠ 0 →
      cfg.period now = cfg.period s.record.lastTradeTime + 14 → s.record.todayAvgPrice = s.record.todayAssessPrice)

/-- Nothing gets lost: it is loaded on the day it was stored on or on the next one, and used as above. -/
def SaleOp.Retained : SaleOp → Prop
  | .sell now _ _ | .assess now | .avgPrice now _ => s.UsableAt cfg now
  | .reload => ∀ w ∈ s.row, s.lost = false →
    cfg.period s.record.lastTradeTime ≤ cfg.period w.lastTradeTime + 1

instance   (op : SaleOp) : Decidable (op.Timely cfg s) :=
  match op with
  | .sell _ _ _ | .assess _ | .avgPrice _ _ => inferInstanceAs (Decidable (_ ∧ _))
  | .reload => .isTrue trivial

instance   (now : ℤ) : Decidable (s.UsableAt cfg now) :=
  inferInstanceAs (Decidable (_ ∧ _))

instance   (op : SaleOp) : Decidable (op.Retained cfg s) :=
  match op with
  | .sell now _ _ | .assess now | .avgPrice now _ => inferInstanceAs (Decidable (s.UsableAt cfg now))
  | .reload => inferInstanceAs (Decidable (∀ w ∈ s.row, s.lost = false →
      cfg.period s.record.lastTradeTime ≤ cfg.period w.lastTradeTime + 1))

def RowOf (w : SaleRow) (l : Ledger) : Prop :=
  Synced cfg (SaleRecord.new cfg (some w)) { l with price := cfg.assessPrice }

/-- The ledger has come to `l` since it was stored as `l₀`: later days are not those of `l₀`. -/
structure Ledger.Since (l₀ l : Ledger) : Prop where
  day : l₀.day ≤ l.day
  same : l.day = l₀.day → l = l₀
  next : l.day = l₀.day + 1 → l = l₀.touch (l₀.day + 1)

structure Follows (cfg : SaleConfig) (s : SaleRun) (l : Ledger) : Prop where
  reached : ∀ now, 0 < now → cfg.referenceTime < now → s.clock ≤ now → l.day ≤ cfg.period now
  db : s.record.dbExist = s.row.isSome
  unsold : s.row = none → s.lost = false ∧ l.Blank cfg ∧
    (s.record.lastTradeTime = 0 ∧ s.record.todayAssessPrice = cfg.assessPrice ∨ Synced cfg s.record l)
  sold : ∀ w, s.row = some w → ∃ l₀, RowOf cfg w l₀ ∧ l₀.Since l ∧
    (s.lost = false ∧ Synced cfg s.record l ∨
      s.lost = true ∧ s.record = SaleRecord.new cfg (some w) ∧ l.day ≤ l₀.day + 1)

theorem Ledger.Since.touch {l₀ l : Ledger} (h : l₀.Since l) {p : ℤ} (hp : l.day ≤ p) : l₀.Since (l.touch p) := by
  have hday := l.touch_day p
  have hle := h.day
  refine ⟨by omega, fun he => ?_, fun he => ?_⟩
  · have hp' : p = l.day := by omega
    rw [Ledger.touch, if_pos hp']
    exact h.same (by omega)
  · have hp' : p = l₀.day + 1 := by omega
    rw [hp']
    by_cases hl : l.day = l₀.day
    · rw [h.same hl]
    · rw [h.next (by omega), Ledger.touch_touch]

theorem Ledger.touch_next (c : ℚ) : ({ l with price := c } : Ledger).touch (l.day + 1) = l.touch (l.day + 1) := by
  have hclosed : ({ l with price := c } : Ledger).closed (l.day + 1) = l.closed (l.day + 1) := by
    funext d
    unfold Ledger.closed
    by_cases hd : d = l.day
    · rw [if_pos hd, if_pos hd]
    · have hnot : ¬ (l.day < d ∧ d < l.day + 1) := by omega
      rw [if_neg hd, if_neg hd, if_neg hnot, if_neg hnot]
  have hne : ¬ l.day + 1 = l.day := by omega
  rw [Ledger.touch, Ledger.touch, if_neg hne, if_neg hne, hclosed]

section Steps
variable {cfg : SaleConfig} {s : SaleRun} {l : Ledger} {now : ℤ}

theorem Follows.use (h : Follows cfg s l) (h0 : 0 < now) (href : cfg.referenceTime < now) (hclock : s.clock ≤ now)
    (husable : s.UsableAt cfg now) :
    ∃ r, s.record.refresh cfg now = .ok r ∧ Synced cfg r (l.touch (cfg.period now)) ∧
      Follows cfg ⟨r, s.row, now, false⟩ (l.touch (cfg.period now)) := by
  have hle := h.reached now h0 href hclock
  have hlater : ∀ t, 0 < t → cfg.referenceTime < t → now ≤ t → (l.touch (cfg.period now)).day ≤ cfg.period t := by
    intro t _ _ hnt
    rw [l.touch_day]
    exact cfg.period_mono h0 hnt
  -- a record that is up to date with its ledger
  have husual : s.lost = false → Synced cfg s.record l →
      ∃ r, s.record.refresh cfg now = .ok r ∧ Synced cfg r (l.touch (cfg.period now)) ∧ r.dbExist = s.record.dbExist := by
    intro hlost hsynced
    refine hsynced.refresh href hle fun hgap => ?_
    have hnear := husable.2 hlost
    rw [hsynced.day, hsynced.avg, hsynced.price] at hnear
    exact hnear hsynced.pos.ne' hgap
  cases hrow : s.row with
  | none =>
    obtain ⟨hlost, hblank, hrecord⟩ := h.unsold hrow
    obtain ⟨r, hr, hsynced, hdb⟩ : ∃ r, s.record.refresh cfg now = .ok r ∧
        Synced cfg r (l.touch (cfg.period now)) ∧ r.dbExist = s.record.dbExist := by
      rcases hrecord with ⟨hlast, hprice⟩ | hsynced
      · exact hblank.refresh hlast hprice h0 href
      · exact husual hlost hsynced
    refine ⟨r, hr, hsynced, hlater, ?_, fun _ => ⟨rfl, hblank.touch _, .inr hsynced⟩, nofun⟩
    show r.dbExist = (none : Option SaleRow).isSome
    rw [hdb, h.db, hrow]
  | some w =>
    obtain ⟨l₀, hw, hsince, hrecord⟩ := h.sold w hrow
    obtain ⟨r, hr, hsynced, hdb⟩ : ∃ r, s.record.refresh cfg now = .ok r ∧
        Synced cfg r (l.touch (cfg.period now)) ∧ r.dbExist = s.record.dbExist := by
      rcases hrecord with ⟨hlost, hsynced⟩ | ⟨hlost, hloaded, hnear⟩
      · exact husual hlost hsynced
      · have hnext := husable.1 hlost
        rw [hloaded, hw.day] at hnext
        obtain ⟨r, hr, hsynced, hdb⟩ := hw.refresh href (by rw [hnext]; show l₀.day ≤ l₀.day + 1; omega)
          (fun hgap => by rw [hnext] at hgap; omega)
        have htouch : ({ l₀ with price := cfg.assessPrice } : Ledger).touch (cfg.period now) = l.touch (cfg.period now) := by
          rw [show cfg.period now = l₀.day + 1 from hnext, Ledger.touch_next]
          have hday := hsince.day
          by_cases hl : l.day = l₀.day
          · rw [hsince.same hl]
          · rw [hsince.next (by omega), Ledger.touch_touch]
        rw [htouch] at hsynced
        rw [hloaded]
        exact ⟨r, hr, hsynced, hdb⟩
    refine ⟨r, hr, hsynced, hlater, ?_, nofun, fun w' hw' => ?_⟩
    · show r.dbExist = (some w).isSome
      rw [hdb, h.db, hrow]
    · obtain rfl := some.inj hw'
      exact ⟨l₀, hw, hsince.touch hle, .inl ⟨rfl, hsynced⟩⟩

theorem Follows.sell (h : Follows cfg s l) (avg : ℚ) (sales : ℤ) (h0 : 0 < now) (href : cfg.referenceTime < now)
    (hclock : s.clock ≤ now) (husable : s.UsableAt cfg now) :
    ∃ s', saleStep cfg s (.sell now avg sales) = .ok (s', none) ∧
      Follows cfg s' { l.touch (cfg.period now) with avg := avg } := by
  obtain ⟨r, hr, hsynced, hfollows⟩ := h.use h0 href hclock husable
  have hdb : r.dbExist = s.row.isSome := hfollows.db
  refine ⟨⟨{ r with todayAvgPrice := avg, todaySales := sales, dbExist := true },
    some ⟨r.avgPrice, r.sales, avg, sales, r.lastTradeTime⟩, now, false⟩, ?_, hfollows.reached, rfl, nofun, fun w hw => ?_⟩
  · simp only [saleStep, SaleRecord.updateTodaySaleRecord, hr, ok_bind, hdb]
    cases s.row with
    | none => rfl
    | some w => rfl
  · obtain rfl := some.inj hw
    refine ⟨{ l.touch (cfg.period now) with avg := avg }, ?_, ⟨le_refl _, fun _ => rfl, fun he => ?_⟩, .inl ⟨rfl, ?_⟩⟩
    · exact ⟨hsynced.day, hsynced.pos, hsynced.time, rfl, rfl, hsynced.slots⟩
    · change (l.touch (cfg.period now)).day = (l.touch (cfg.period now)).day + 1 at he
      omega
    · exact ⟨hsynced.day, hsynced.pos, hsynced.time, rfl, hsynced.price, hsynced.slots⟩

theorem Follows.assess (h : Follows cfg s l) (h0 : 0 < now) (href : cfg.referenceTime < now) (hclock : s.clock ≤ now)
    (husable : s.UsableAt cfg now) :
    ∃ s', saleStep cfg s (.assess now) = .ok (s', some (l.touch (cfg.period now)).price) ∧
      Follows cfg s' (l.touch (cfg.period now)) := by
  obtain ⟨r, hr, hsynced, hfollows⟩ := h.use h0 href hclock husable
  refine ⟨⟨r, s.row, now, false⟩, ?_, hfollows⟩
  simp only [saleStep, SaleRecord.getTodayAssessPrice, hr, ok_bind, hsynced.price]

theorem Follows.avgPrice (h : Follows cfg s l) (day : ℤ) (h0 : 0 < now) (href : cfg.referenceTime < now)
    (hclock : s.clock ≤ now) (hday : day.natAbs ≤ 14) (husable : s.UsableAt cfg now) :
    ∃ s', saleStep cfg s (.avgPrice now day) = .ok (s', (ledgerStep cfg l (.avgPrice now day)).2) ∧
      Follows cfg s' (l.touch (cfg.period now)) := by
  obtain ⟨r, hr, hsynced, hfollows⟩ := h.use h0 href hclock husable
  refine ⟨⟨r, s.row, now, false⟩, ?_, hfollows⟩
  have htouch := l.touch_day (cfg.period now)
  simp only [saleStep, SaleRecord.getAvgPrice, assert_of (decide_eq_true hday), hr, ok_bind,
    show maxRecordLength = 14 from rfl, ledgerStep]
  by_cases hneg : day < 0
  · obtain ⟨k, hk⟩ : ∃ k, day.natAbs = k + 1 := ⟨day.natAbs - 1, by omega⟩
    have hslot := hsynced.slots (cfg.period now + day) (by omega) (by omega)
    have hhead : getLastPeriodIndexTb (mod (cfg.period now) 14) day.natAbs =
        mod (cfg.period now + day) 14 ::
          (List.range' 1 k).map fun j : ℕ => mod (cfg.period now - day.natAbs + j) 14 := by
      have he : cfg.period now - ((day.natAbs : ℕ) : ℤ) + ((0 : ℕ) : ℤ) = cfg.period now + day := by omega
      rw [lastPeriods_eq _ hday, hk, range_eq_range', range'_succ, map_cons, ← hk, he]
    rw [if_pos hneg, if_pos hneg, getPeriod_ok (.inr href), ok_bind, hhead]
    simp only [ok_bind, htouch, hslot]
  · rw [if_neg hneg, if_neg hneg]
    simp only [ok_bind, hsynced.avg]

theorem Follows.reload (h : Follows cfg s l) (hnear : SaleOp.Retained cfg s .reload) :
    ∃ s', saleStep cfg s .reload = .ok (s', none) ∧ Follows cfg s' l := by
  refine ⟨_, rfl, h.reached, ?_, fun hrow => ?_, fun w hrow => ?_⟩
  · cases s.row <;> rfl
  · obtain ⟨hlost, hblank, -⟩ := h.unsold hrow
    change s.row = none at hrow
    refine ⟨?_, hblank, .inl ?_⟩
    · show (s.lost || s.row.any (s.record.forgets cfg)) = false
      rw [hlost, hrow]
      rfl
    · show (SaleRecord.new cfg s.row).lastTradeTime = 0 ∧ _
      rw [hrow]
      exact ⟨rfl, rfl⟩
  · change s.row = some w at hrow
    obtain ⟨l₀, hw, hsince, hrecord⟩ := h.sold w hrow
    refine ⟨l₀, hw, hsince, ?_⟩
    show (s.lost || s.row.any (s.record.forgets cfg)) = false ∧ Synced cfg (SaleRecord.new cfg s.row) l ∨
      (s.lost || s.row.any (s.record.forgets cfg)) = true ∧ SaleRecord.new cfg s.row = SaleRecord.new cfg (some w) ∧
        l.day ≤ l₀.day + 1
    rw [hrow, any_some]
    rcases hrecord with ⟨hlost, hsynced⟩ | ⟨hlost, -, hl⟩
    · rw [hlost, Bool.false_or]
      have hle := hnear w hrow hlost
      have hwday : cfg.period w.lastTradeTime = l₀.day := hw.day
      rw [hsynced.day, hwday] at hle
      by_cases hforgets : s.record.forgets cfg w = true
      · exact .inr ⟨hforgets, rfl, hle⟩
      · -- what is loaded is what there was
        rw [SaleRecord.forgets, decide_eq_true_eq, not_or, not_not, not_not, hsynced.day, hwday, hsynced.price] at hforgets
        refine .inl ⟨by simp [SaleRecord.forgets, hsynced.day, hwday, hsynced.price, hforgets], ?_⟩
        have hl₀ : ({ l₀ with price := cfg.assessPrice } : Ledger) = l := by
          rw [← hforgets.2, hsince.same hforgets.1]
        rw [← hl₀]
        exact hw
    · exact .inr ⟨by rw [hlost, Bool.true_or], rfl, hl⟩

end Steps

/-! ## What is told of each day -/

def SaleOp.now : SaleOp → Option ℤ
  | .sell now _ _ | .assess now | .avgPrice now _ => some now
  | .reload => none

variable (ops : List SaleOp)

def lastSale (d : ℤ) : Option ℚ :=
  ops.foldl (fun last op =>
    match op with
    | .sell now avg _ => if cfg.period now = d then some avg else last
    | _ => last) none

def lastUse (d : ℤ) : Option ℤ :=
  ops.foldl (fun last op =>
    match op.now with
    | some now => if cfg.period now ≤ d then some (cfg.period now) else last
    | none => last) none

/-- The closing averages: of a day with a sale the average set last, of another one the mean of the 14 days before the last
day, up to and with it, on which the record was used, and the configured price if there is none. -/
def Closing (closing : ℤ → ℚ) : Prop :=
  ∀ d, closing d = (lastSale cfg ops d).getD ((lastUse cfg ops d).elim cfg.assessPrice (mean14 closing))

/-- The answer to a query is the mean of the 14 days before its day, or the closing average of one of them. -/
def Answered (closing : ℤ → ℚ) : SaleOp → Option ℚ → Prop
  | .assess now, answer => answer = some (mean14 closing (cfg.period now))
  | .avgPrice now day, answer => day < 0 → answer = some (closing (cfg.period now + day))
  | _, _ => True

/-- The ledger, with the current day and those after it as they would be closed. -/
def Ledger.all (d : ℤ) : ℚ := if d = l.day then l.avg else if l.day < d then l.price else l.closing d

theorem mean14_congr {c c' : ℤ → ℚ} {p : ℤ} (h : ∀ d, d < p → c d = c' d) : mean14 c p = mean14 c' p := by
  unfold mean14
  congr 2
  refine map_congr_left fun k hk => ?_
  have := mem_range.mp hk
  exact h _ (by omega)

theorem Ledger.closed_lt {p d : ℤ} (hd : d < p) : l.closed p d = l.all d := by
  unfold Ledger.closed Ledger.all
  simp only [hd, and_true]

theorem Ledger.touch_all {p d : ℤ} (hd : d < p) : (l.touch p).all d = l.all d := by
  unfold Ledger.touch
  split_ifs
  · rfl
  · rw [← l.closed_lt hd, Ledger.all, if_neg (by show ¬ d = p; omega), if_neg (by show ¬ p < d; omega)]

theorem ledgerStep_all (l : Ledger) (op : SaleOp) {d : ℤ}
    (hd : ∀ now, op.now = some now → d < cfg.period now) : (ledgerStep cfg l op).1.all d = l.all d := by
  cases op with
  | sell now avg sales =>
    have hlt := hd now rfl
    have hday := l.touch_day (cfg.period now)
    rw [← l.touch_all hlt]
    simp only [ledgerStep, Ledger.all, hday, if_neg hlt.ne]
  | assess now => exact l.touch_all (hd now rfl)
  | avgPrice now day => exact l.touch_all (hd now rfl)
  | reload => rfl

structure Told (cfg : SaleConfig) (ops : List SaleOp) (l : Ledger) : Prop where
  closing : Closing cfg ops l.all
  nonneg : 0 ≤ l.day
  sold : ∀ d, l.day < d → lastSale cfg ops d = none
  used : ∀ d, l.day ≤ d → 0 < l.day → lastUse cfg ops d = some l.day
  unused : ∀ d, d ≤ 0 → lastUse cfg ops d = none
  price : 0 < l.day → l.price = mean14 l.all l.day

theorem lastUse_snoc {op : SaleOp} {now : ℤ} (h : op.now = some now) (d : ℤ) :
    lastUse cfg (ops ++ [op]) d = if cfg.period now ≤ d then some (cfg.period now) else lastUse cfg ops d := by
  rw [lastUse, foldl_append, foldl_cons, foldl_nil, h]
  rfl

theorem lastUse_le {cfg : SaleConfig} {ops : List SaleOp} {d p : ℤ} (h : lastUse cfg ops d = some p) : p ≤ d := by
  induction ops using List.reverseRecOn with
  | nil => exact nomatch h
  | append_singleton ops op ih =>
    cases hop : op.now with
    | none =>
      rw [lastUse, foldl_append, foldl_cons, foldl_nil, hop] at h
      exact ih h
    | some now =>
      rw [lastUse_snoc cfg _ hop] at h
      split_ifs at h with hle
      · rwa [← some.inj h]
      · exact ih h

theorem lastSale_snoc (op : SaleOp) (d : ℤ) :
    lastSale cfg (ops ++ [op]) d =
      match op with
      | .sell now avg _ => if cfg.period now = d then some avg else lastSale cfg ops d
      | _ => lastSale cfg ops d := by
  rw [lastSale, foldl_append]
  rfl

theorem closing_of {cfg : SaleConfig} {ops ops' : List SaleOp} {c c' : ℤ → ℚ} {d : ℤ}
    (h : c d = (lastSale cfg ops d).getD ((lastUse cfg ops d).elim cfg.assessPrice (mean14 c)))
    (hsale : lastSale cfg ops' d = lastSale cfg ops d) (huse : lastUse cfg ops' d = lastUse cfg ops d)
    (hc : ∀ e, e ≤ d → c' e = c e) :
    c' d = (lastSale cfg ops' d).getD ((lastUse cfg ops' d).elim cfg.assessPrice (mean14 c')) := by
  rw [hc d (le_refl d), h, hsale, huse]
  cases hp : lastUse cfg ops d with
  | none => rfl
  | some p =>
    have hle := lastUse_le hp
    have hmean : mean14 c' p = mean14 c p := mean14_congr fun e he => hc e (by omega)
    rw [elim_some, elim_some, hmean]

section Told
variable {cfg : SaleConfig} {ops : List SaleOp} {l : Ledger} {op : SaleOp} {now : ℤ}

theorem Told.touch (h : Told cfg ops l) (op : SaleOp) (hop : op.now = some now)
    (hsale : ∀ d, lastSale cfg (ops ++ [op]) d = lastSale cfg ops d)
    (hpos : 0 < cfg.period now) (hle : l.day ≤ cfg.period now) : Told cfg (ops ++ [op]) (l.touch (cfg.period now)) := by
  have huse := lastUse_snoc cfg ops hop
  have hday := l.touch_day (cfg.period now)
  have hused : ∀ d, cfg.period now ≤ d → lastUse cfg (ops ++ [op]) d = some (cfg.period now) := fun d hd => by
    rw [huse, if_pos hd]
  by_cases heq : cfg.period now = l.day
  · rw [Ledger.touch, if_pos heq]
    refine ⟨fun d => ?_, h.nonneg, fun d hd => (hsale d).trans (h.sold d hd), fun d hd _ => ?_, fun d hd => ?_, h.price⟩
    · refine closing_of (h.closing d) (hsale d) ?_ fun _ _ => rfl
      rw [huse]
      split_ifs with hd
      · rw [h.used d (by omega) (by omega), heq]
      · rfl
    · rw [hused d (by omega), heq]
    · rw [huse, if_neg (by omega)]
      exact h.unused d hd
  · have hlt : l.day < cfg.period now := lt_of_le_of_ne hle fun e => heq e.symm
    have hmean : mean14 (l.touch (cfg.period now)).all (cfg.period now) = mean14 (l.closed (cfg.period now)) (cfg.period now) :=
      mean14_congr fun d hd => by rw [l.touch_all hd, l.closed_lt hd]
    have hprice : (l.touch (cfg.period now)).price = mean14 (l.touch (cfg.period now)).all (cfg.period now) := by
      rw [hmean, Ledger.touch, if_neg heq]
    have havg : (l.touch (cfg.period now)).avg = (l.touch (cfg.period now)).price := by
      rw [Ledger.touch, if_neg heq]
    have hnonneg := h.nonneg
    refine ⟨fun d => ?_, by omega, fun d hd => ?_, fun d hd _ => ?_, fun d hd => ?_, fun _ => ?_⟩
    · by_cases hd : d < cfg.period now
      · refine closing_of (h.closing d) (hsale d) ?_ fun e he => l.touch_all (by omega)
        rw [huse, if_neg (by omega)]
      · rw [hsale, h.sold d (by omega), hused d (by omega), getD_none, elim_some, ← hprice, Ledger.all, hday]
        split_ifs
        · exact havg
        · rfl
        · omega
    · rw [hsale]
      exact h.sold d (by omega)
    · rw [hday]
      exact hused d (by omega)
    · rw [huse, if_neg (by omega)]
      exact h.unused d hd
    · rw [hday]
      exact hprice

theorem Told.sell (h : Told cfg ops l) {avg : ℚ} {sales : ℤ} (hpos : 0 < cfg.period now) (hle : l.day ≤ cfg.period now) :
    Told cfg (ops ++ [.sell now avg sales]) { l.touch (cfg.period now) with avg := avg } := by
  have h₁ := h.touch (.assess now) rfl (fun d => lastSale_snoc cfg ops _ d) hpos hle
  have hday := l.touch_day (cfg.period now)
  have huse : lastUse cfg (ops ++ [.sell now avg sales]) = lastUse cfg (ops ++ [.assess now]) := by
    funext d
    have hsell : (SaleOp.sell now avg sales).now = some now := rfl
    have hassess : (SaleOp.assess now).now = some now := rfl
    rw [lastUse_snoc cfg ops hsell, lastUse_snoc cfg ops hassess]
  have hsale : ∀ d, d ≠ cfg.period now →
      lastSale cfg (ops ++ [.sell now avg sales]) d = lastSale cfg (ops ++ [.assess now]) d := by
    intro d hd
    rw [lastSale_snoc, lastSale_snoc]
    exact if_neg hd.symm
  generalize l.touch (cfg.period now) = l₁ at h₁ hday ⊢
  have hall : ∀ d, d ≠ cfg.period now → ({ l₁ with avg := avg } : Ledger).all d = l₁.all d := by
    intro d hd
    simp only [Ledger.all, hday, if_neg hd]
  have hmean : ∀ p, p ≤ cfg.period now → mean14 ({ l₁ with avg := avg } : Ledger).all p = mean14 l₁.all p :=
    fun p hp => mean14_congr fun e he => hall e (by omega)
  refine ⟨fun d => ?_, h₁.nonneg, fun d hd => ?_, fun d hd h0 => ?_, fun d hd => ?_, fun h0 => ?_⟩
  · rcases lt_trichotomy d (cfg.period now) with hd | hd | hd
    · exact closing_of (h₁.closing d) (hsale d hd.ne) (by rw [huse]) fun e he => hall e (by omega)
    · have hown : lastSale cfg (ops ++ [.sell now avg sales]) d = some avg := by
        rw [lastSale_snoc]
        exact if_pos hd.symm
      rw [hown, getD_some, Ledger.all, if_pos (by rw [hday]; exact hd)]
    · have hlast := h₁.used d (by rw [hday]; exact hd.le) (by rw [hday]; exact hpos)
      rw [hall d hd.ne', h₁.closing d, hsale d hd.ne', huse, hlast, hday, elim_some, elim_some,
        hmean _ (le_refl _)]
  · change l₁.day < d at hd
    rw [hsale d (by omega)]
    exact h₁.sold d hd
  · rw [huse]
    exact h₁.used d hd h0
  · rw [huse]
    exact h₁.unused d hd
  · refine (h₁.price h0).trans (hmean l₁.day hday.le).symm

theorem Told.blank (cfg : SaleConfig) : Told cfg [] (Ledger.blank cfg) := by
  refine ⟨fun d => ?_, le_refl _, fun _ _ => rfl, fun _ _ h0 => absurd h0 (lt_irrefl _), fun _ _ => rfl,
    fun h0 => absurd h0 (lt_irrefl _)⟩
  show Ledger.all (Ledger.blank cfg) d = cfg.assessPrice
  unfold Ledger.all Ledger.blank
  split_ifs <;> rfl

end Told

section Runs
variable {cfg : SaleConfig} {s : SaleRun} {l : Ledger} {ops : List SaleOp} {op : SaleOp}

theorem Follows.step (h : Follows cfg s l) (htime : op.Timely cfg s) (hkept : op.Retained cfg s) :
    ∃ s', saleStep cfg s op = .ok (s', (ledgerStep cfg l op).2) ∧ Follows cfg s' (ledgerStep cfg l op).1 ∧
      ∀ now, op.now = some now → l.day ≤ cfg.period now ∧ 0 < cfg.period now := by
  have huse : ∀ now, 0 < now ∧ cfg.referenceTime < now ∧ s.clock ≤ now → l.day ≤ cfg.period now ∧ 0 < cfg.period now :=
    fun now ht => ⟨h.reached now ht.1 ht.2.1 ht.2.2, cfg.period_pos ht.1 ht.2.1⟩
  cases op with
  | sell now avg sales =>
    obtain ⟨s', hs, h'⟩ := h.sell avg sales htime.1 htime.2.1 htime.2.2 hkept
    exact ⟨s', hs, h', fun t ht => some.inj ht ▸ huse now htime⟩
  | assess now =>
    obtain ⟨s', hs, h'⟩ := h.assess htime.1 htime.2.1 htime.2.2 hkept
    exact ⟨s', hs, h', fun t ht => some.inj ht ▸ huse now htime⟩
  | avgPrice now day =>
    obtain ⟨s', hs, h'⟩ := h.avgPrice day htime.1.1 htime.1.2.1 htime.1.2.2 htime.2 hkept
    exact ⟨s', hs, h', fun t ht => some.inj ht ▸ huse now htime.1⟩
  | reload =>
    obtain ⟨s', hs, h'⟩ := h.reload hkept
    exact ⟨s', hs, h', nofun⟩

theorem Told.step (h : Told cfg ops l) (hop : ∀ now, op.now = some now → l.day ≤ cfg.period now ∧ 0 < cfg.period now) :
    Told cfg (ops ++ [op]) (ledgerStep cfg l op).1 := by
  cases op with
  | sell now avg sales => exact h.sell (hop now rfl).2 (hop now rfl).1
  | assess now => exact h.touch (.assess now) rfl (fun d => lastSale_snoc cfg ops _ d) (hop now rfl).2 (hop now rfl).1
  | avgPrice now day => exact h.touch (.avgPrice now day) rfl (fun d => lastSale_snoc cfg ops _ d) (hop now rfl).2 (hop now rfl).1
  | reload =>
    have hsale : lastSale cfg (ops ++ [.reload]) = lastSale cfg ops := funext fun d => lastSale_snoc cfg ops _ d
    have huse : lastUse cfg (ops ++ [.reload]) = lastUse cfg ops := by
      funext d
      rw [lastUse, foldl_append]
      rfl
    refine ⟨?_, h.nonneg, ?_, ?_, ?_, h.price⟩
    · unfold Closing
      rw [hsale, huse]
      exact h.closing
    · rw [hsale]
      exact h.sold
    · rw [huse]
      exact h.used
    · rw [huse]
      exact h.unused

theorem Told.answered (h : Told cfg (ops ++ [op]) (ledgerStep cfg l op).1) {closing : ℤ → ℚ}
    (hpos : ∀ now, op.now = some now → 0 < cfg.period now)
    (hclosing : ∀ d, d < (ledgerStep cfg l op).1.day → closing d = (ledgerStep cfg l op).1.all d) :
    Answered cfg closing op (ledgerStep cfg l op).2 := by
  cases op with
  | sell => trivial
  | reload => trivial
  | assess now =>
    have hday := l.touch_day (cfg.period now)
    have hprice : (l.touch (cfg.period now)).price = _ := h.price (by show 0 < (l.touch _).day; rw [hday]; exact hpos now rfl)
    have hmean := mean14_congr hclosing
    show some (l.touch (cfg.period now)).price = some (mean14 closing (cfg.period now))
    rw [hprice, ← hmean]
    show some (mean14 closing (l.touch (cfg.period now)).day) = _
    rw [hday]
  | avgPrice now day =>
    intro hneg
    have hday : (ledgerStep cfg l (.avgPrice now day)).1.day = cfg.period now := l.touch_day (cfg.period now)
    have hlt : cfg.period now + day < (ledgerStep cfg l (.avgPrice now day)).1.day := by omega
    rw [hclosing _ hlt, Ledger.all, if_neg (by omega), if_neg (by omega)]
    show some (if day < 0 then _ else _) = _
    rw [if_pos hneg]
    show some ((l.touch (cfg.period now)).closing ((l.touch (cfg.period now)).day + day)) = _
    rw [l.touch_day]
    rfl

theorem ledgerStep_day (hop : ∀ now, op.now = some now → l.day ≤ cfg.period now) : l.day ≤ (ledgerStep cfg l op).1.day := by
  cases op with
  | sell now avg sales => exact (hop now rfl).trans_eq (l.touch_day _).symm
  | assess now => exact (hop now rfl).trans_eq (l.touch_day _).symm
  | avgPrice now day => exact (hop now rfl).trans_eq (l.touch_day _).symm
  | reload => exact le_refl _

theorem saleRun_answered (rest : List SaleOp) :
    ∀ (ops : List SaleOp) (s : SaleRun) (l : Ledger), Follows cfg s l → Told cfg ops l →
      Along (silent (saleStep cfg)) (fun s op => op.Timely cfg s ∧ op.Retained cfg s) s rest →
      ∃ s' answers l', exec (saleStep cfg) s rest = .ok (s', answers) ∧ Told cfg (ops ++ rest) l' ∧
        (∀ d, d < l.day → l'.all d = l.all d) ∧ List.Forall₂ (Answered cfg l'.all) rest answers := by
  induction rest with
  | nil =>
    intro ops s l _ ht _
    exact ⟨s, [], l, rfl, by rwa [append_nil], fun _ _ => rfl, .nil⟩
  | cons op rest ih =>
    intro ops s l h ht halong
    obtain ⟨s₁, hstep, h₁, hop⟩ := h.step halong.1.1 halong.1.2
    have ht₁ := ht.step hop
    obtain ⟨s', answers, l', hexec, ht', hall, hanswers⟩ := ih (ops ++ [op]) s₁ _ h₁ ht₁ (halong.2 s₁ (silent_ok hstep))
    have hday := ledgerStep_day (fun now hnow => (hop now hnow).1)
    refine ⟨s', _ :: answers, l', exec_cons_ok hstep hexec, by rwa [append_assoc] at ht', fun d hd => ?_,
      .cons (ht₁.answered (fun now hnow => (hop now hnow).2) hall) hanswers⟩
    rw [hall d (by omega)]
    exact ledgerStep_all cfg l op fun now hnow => by
      have := (hop now hnow).1
      omega

end Runs

/-- At non-decreasing times and where nothing gets lost, there are closing averages of all days such that each price is the
mean of those of the 14 days before. -/
theorem assessPrice_closing
    (htimes : Along (silent (saleStep cfg)) (SaleOp.Timely cfg) (SaleRun.init cfg) ops)
    (hkept : Along (silent (saleStep cfg)) (SaleOp.Retained cfg) (SaleRun.init cfg) ops) :
    ∃ s answers closing, exec (saleStep cfg) (SaleRun.init cfg) ops = .ok (s, answers) ∧ Closing cfg ops closing ∧
      List.Forall₂ (Answered cfg closing) ops answers := by
  have hinit : Follows cfg (SaleRun.init cfg) (Ledger.blank cfg) := by
    refine ⟨fun now h0 href _ => (cfg.period_pos h0 href).le, rfl, fun _ => ⟨rfl, ⟨fun _ => rfl, rfl, rfl⟩, .inl ⟨rfl, rfl⟩⟩,
      nofun⟩
  obtain ⟨s, answers, l, hexec, ht, -, hanswers⟩ :=
    saleRun_answered ops [] _ _ hinit (Told.blank cfg) (htimes.and hkept)
  exact ⟨s, answers, l.all, hexec, ht.closing, hanswers⟩

theorem assessPrice_closing_week :
    ∃ s answers closing,
      exec (saleStep ⟨100, 0⟩) (SaleRun.init ⟨100, 0⟩) [.sell 1 200 1, .assess 2, .reload, .assess 86401, .avgPrice 86402 (-1),
        .sell 86403 150 2, .assess 432001] = .ok (s, answers) ∧
      Closing ⟨100, 0⟩ [.sell 1 200 1, .assess 2, .reload, .assess 86401, .avgPrice 86402 (-1), .sell 86403 150 2,
        .assess 432001] closing ∧
      List.Forall₂ (Answered ⟨100, 0⟩ closing) [.sell 1 200 1, .assess 2, .reload, .assess 86401, .avgPrice 86402 (-1),
        .sell 86403 150 2, .assess 432001] answers :=
  assessPrice_closing ⟨100, 0⟩ _ (by decide +kernel) (by decide +kernel)

def lastPrice : Option ℚ :=
  (exec (saleStep cfg) (SaleRun.init cfg) ops).toOption.bind fun r => r.2.getLast?.join

/-- A sale at 200 on the first day, and the price of the third one without and with a query on the second. -/
theorem assessPrice_queried :
    lastPrice ⟨100, 0⟩ [.sell 1 200 1, .assess 172801] = some (750 / 7) ∧
      lastPrice ⟨100, 0⟩ [.sell 1 200 1, .assess 86401, .assess 172801] = some (5275 / 49) := by
  decide +kernel

end CServer.Consume
