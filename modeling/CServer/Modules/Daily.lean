import CServer.Lib.Exec
import CServer.Lib.Memory
import Mathlib.Data.BitVec

/-! # `world/modules/daily.c`: the time online on a day

`daily_update_online_time` adds the seconds since the last count to the record `DAILY_ITEM_ONLINE`, or starts it with the
seconds of today if the last count was before today. The seconds of today are `timeline_get_sec(now) % 86400`, where the
first second is 1: it is one too many for the time since the day began, and 0 in the last second.
-/
namespace CServer.Modules
open CServer.Lib Function

/-! ## `world/timeline.c` -/

def daySec : ℤ := 86400

def timelineGet (start now loop : ℤ) : ℤ :=
  let loop := if loop = 0 then 1 else loop
  if now < start then 0 else (now - start) / loop + 1

def timelineGetSec (start now : ℤ) : ℤ := timelineGet start now 1

def timelineGetDay (start now : ℤ) : ℤ := timelineGet start now daySec

/-! ## `world/modules/daily.c` -/

structure DailyData where
  updateTime : ℤ
  value : BitVec 32

abbrev DailySet := ℕ → Option DailyData

structure CheckData where
  tickTime : ℤ
  dailyOnlineRecordTime : ℤ

structure DailyState where
  data : DailySet
  check : CheckData

def dailyItemOnline : ℕ := 1

variable (start current : ℤ)

def dailyOutdated (id : ℕ) (daily : DailyData) : Bool :=
  if id = dailyItemOnline then timelineGetDay start current ≠ timelineGetDay start daily.updateTime
  else timelineGetDay start (current - 5 * 3600) ≠ timelineGetDay start (daily.updateTime - 5 * 3600)

def dailyGet (data : DailySet) (id : ℕ) : DailySet × Option DailyData :=
  match data id with
  | none => (data, none)
  | some daily =>
    let daily := if dailyOutdated start current id daily then ⟨current, 0⟩ else daily
    (update data id (some daily), some daily)

def dailyAdd (current : ℤ) (data : DailySet) (id : ℕ) : DailySet × DailyData :=
  match data id with
  | some daily => (data, daily)
  | none => (update data id (some ⟨current, 0⟩), ⟨current, 0⟩)

def dailySet (current : ℤ) (daily : DailyData) (value : BitVec 32) : DailyData :=
  if value = daily.value then daily else ⟨current, value⟩

def recordTime (check : CheckData) (now : ℤ) : ℤ :=
  if check.dailyOnlineRecordTime = 0 ∨ now > check.tickTime + 5 * 60 then now else check.dailyOnlineRecordTime

def todaySec (start now : ℤ) : ℤ := timelineGetSec start now % (3600 * 24)

/-- `daily_get_online_time`; `conn` says that the player has a connection. -/
def dailyGetOnlineTime (s : DailyState) (conn : Bool) : DailyState × BitVec 32 :=
  match dailyGet start current s.data dailyItemOnline with
  | (data, none) => ({ s with data }, 0)
  | (data, some daily) =>
    if conn then
      let record := recordTime s.check current
      (⟨data, { s.check with dailyOnlineRecordTime := record }⟩,
        if current > record then
          if current - record > todaySec start current then BitVec.ofInt 32 (todaySec start current)
          else BitVec.ofInt 32 (daily.value.toNat + current - record)
        else daily.value)
    else ({ s with data }, daily.value)

def dailyUpdateOnlineTime (s : DailyState) (now : ℤ) (force : Bool) : DailyState :=
  let (data, daily) :=
    match dailyGet start current s.data dailyItemOnline with
    | (data, some daily) => (data, daily)
    | (data, none) => dailyAdd current data dailyItemOnline
  let record := recordTime s.check now
  if now > record ∧ (force ∨ now ≥ record + 60 * 5) then
    let value := if now - record > todaySec start now then todaySec start now else daily.value.toNat + now - record
    ⟨update data dailyItemOnline (some (dailySet current daily (BitVec.ofInt 32 value))),
      { s.check with dailyOnlineRecordTime := now }⟩
  else ⟨data, { s.check with dailyOnlineRecordTime := record }⟩

/-! ## Calls -/

inductive OnlineCall
  | update (force : Bool)
  | get (conn : Bool)

/-- A call, its time, and the time of the last tick before it. -/
structure OnlineEvent where
  now : ℤ
  tick : ℤ
  call : OnlineCall

def onlineStep (start : ℤ) (s : DailyState) (e : OnlineEvent) : Except Fault DailyState :=
  let s := { s with check := { s.check with tickTime := e.tick } }
  match e.call with
  | .update force => .ok (dailyUpdateOnlineTime start e.now s e.now force)
  | .get conn => .ok (dailyGetOnlineTime start e.now s conn).1

def DailyState.online (s : DailyState) : ℕ := ((s.data dailyItemOnline).map fun daily => daily.value.toNat).getD 0

def DailyState.onlineOn (start : ℤ) (s : DailyState) (now : ℤ) : ℕ :=
  match s.data dailyItemOnline with
  | none => 0
  | some daily => if dailyOutdated start now dailyItemOnline daily then 0 else daily.value.toNat

def OnlineEvent.counts (e : OnlineEvent) (s : DailyState) : Prop :=
  ∃ force, e.call = .update force ∧ s.check.dailyOnlineRecordTime ≠ 0 ∧ e.now ≤ e.tick + 5 * 60 ∧
    s.check.dailyOnlineRecordTime < e.now ∧ (force = true ∨ s.check.dailyOnlineRecordTime + 60 * 5 ≤ e.now)

/-- The stored time is no less than before, and no more than the seconds since the day began at `dawn`. -/
def OnlineRight (start dawn : ℤ) (s : DailyState) (e : OnlineEvent) : Prop :=
  ∃ s', onlineStep start s e = .ok s' ∧ s.onlineOn start e.now ≤ s'.online ∧ (s'.online : ℤ) ≤ e.now - dawn

/-- Time is counted from today on only, and in the last second of the day only if there is nothing to lose. -/
def OnlineSound (start dawn : ℤ) (s : DailyState) (e : OnlineEvent) : Prop :=
  e.counts s → if e.now = dawn + daySec - 1 then s.onlineOn start e.now = 0 else dawn ≤ s.check.dailyOnlineRecordTime

/-- The day up to the time `since`: no more stored for it than has passed, nor than had passed at the last count. -/
structure Begun (start dawn since : ℤ) (s : DailyState) : Prop where
  elapsed : (s.onlineOn start dawn : ℤ) ≤ since - dawn
  counted : dawn ≤ s.check.dailyOnlineRecordTime → (s.onlineOn start dawn : ℤ) ≤ s.check.dailyOnlineRecordTime - dawn

/-- Calls one after another from `since` on, all within the day that began at `dawn`. -/
structure InDay (dawn since : ℤ) (es : List OnlineEvent) : Prop where
  begun : dawn ≤ since
  ordered : (since :: es.map OnlineEvent.now).Pairwise (· ≤ ·)
  ends : ∀ e ∈ es, e.now < dawn + daySec

/-! ## The clock -/

section Clock
variable {start dawn now : ℤ} {day : ℕ}

theorem timelineGetDay_eq (hdawn : dawn = start + day * daySec) (hlo : dawn ≤ now) (hhi : now < dawn + daySec) :
    timelineGetDay start now = day + 1 := by
  have hstart : ¬ now < start := by
    unfold daySec at hdawn
    omega
  have hloop : daySec ≠ 0 := by decide
  have hquot : (now - start) / daySec = day := by
    unfold daySec at hdawn hhi ⊢
    omega
  rw [timelineGetDay, timelineGet]
  simp only [hloop, hstart, hquot, if_false]

theorem todaySec_eq (hdawn : dawn = start + day * daySec) (hlo : dawn ≤ now) (hhi : now < dawn + daySec) :
    todaySec start now = if now = dawn + daySec - 1 then 0 else now - dawn + 1 := by
  have hstart : ¬ now < start := by
    unfold daySec at hdawn
    omega
  have hmod : (now - start + 1) % 86400 = (now - dawn + 1) % 86400 := by
    unfold daySec at hdawn
    omega
  rw [todaySec, timelineGetSec, timelineGet]
  simp only [one_ne_zero, hstart, if_false, Int.ediv_one]
  norm_num
  rw [hmod]
  unfold daySec at hhi ⊢
  split <;> omega

end Clock

/-! ## One call -/

section Call
variable {start dawn now since : ℤ} {day : ℕ} {s : DailyState} {e : OnlineEvent}

theorem onlineOn_congr {now' : ℤ} (h : timelineGetDay start now = timelineGetDay start now') :
    s.onlineOn start now = s.onlineOn start now' := by
  rw [DailyState.onlineOn, DailyState.onlineOn]
  cases s.data dailyItemOnline with
  | none => rfl
  | some daily => simp only [dailyOutdated, if_true, h]

theorem dailyOutdated_now (value : BitVec 32) : dailyOutdated start now dailyItemOnline ⟨now, value⟩ = false := by
  simp only [dailyOutdated, if_true, ne_eq, not_true, decide_false]

theorem dailyGet_online :
    (dailyGet start now s.data dailyItemOnline = (s.data, none) ∧ s.data dailyItemOnline = none ∧ s.onlineOn start now = 0) ∨
      ∃ daily, dailyGet start now s.data dailyItemOnline = (update s.data dailyItemOnline (some daily), some daily) ∧
        daily.value.toNat = s.onlineOn start now ∧ dailyOutdated start now dailyItemOnline daily = false := by
  rw [dailyGet, DailyState.onlineOn]
  cases hdata : s.data dailyItemOnline with
  | none => exact .inl ⟨rfl, rfl, rfl⟩
  | some daily =>
    refine .inr ⟨_, rfl, ?_⟩
    cases hold : dailyOutdated start now dailyItemOnline daily with
    | false => exact ⟨by simp [hold], by simp [hold]⟩
    | true => exact ⟨by simp [hold], by simpa [hold] using dailyOutdated_now 0⟩

theorem dailySet_spec {daily : DailyData} (hday : dailyOutdated start now dailyItemOnline daily = false) (value : BitVec 32) :
    (dailySet now daily value).value = value ∧ dailyOutdated start now dailyItemOnline (dailySet now daily value) = false := by
  rw [dailySet]
  split
  · exact ⟨by simp [*], hday⟩
  · exact ⟨rfl, dailyOutdated_now value⟩

theorem online_put {daily : DailyData} (hday : dailyOutdated start now dailyItemOnline daily = false) (data : DailySet)
    (check : CheckData) :
    let s' : DailyState := ⟨update data dailyItemOnline (some daily), check⟩
    s'.onlineOn start now = s'.online ∧ s'.online = daily.value.toNat := by
  simp only [DailyState.online, DailyState.onlineOn, update_self]
  exact ⟨by simp [hday], rfl⟩

theorem dailyUpdate_spec (start now : ℤ) (s : DailyState) (force : Bool) :
    let s' := dailyUpdateOnlineTime start now s now force
    let record := recordTime s.check now
    s'.onlineOn start now = s'.online ∧
      if now > record ∧ (force = true ∨ now ≥ record + 60 * 5) then
        s'.online = (BitVec.ofInt 32 (if now - record > todaySec start now then todaySec start now
          else s.onlineOn start now + now - record)).toNat ∧ s'.check.dailyOnlineRecordTime = now
      else s'.online = s.onlineOn start now ∧ s'.check.dailyOnlineRecordTime = record := by
  -- the record counted on, old or new
  have hdaily : ∃ daily, (match dailyGet start now s.data dailyItemOnline with
        | (data, some daily) => (data, daily)
        | (data, none) => dailyAdd now data dailyItemOnline) = (update s.data dailyItemOnline (some daily), daily) ∧
      daily.value.toNat = s.onlineOn start now ∧ dailyOutdated start now dailyItemOnline daily = false := by
    obtain ⟨hget, hdata, honline⟩ | ⟨daily, hget, hvalue, hday⟩ := @dailyGet_online start now s
    · refine ⟨⟨now, 0⟩, ?_, by simp [honline], dailyOutdated_now 0⟩
      simp only [hget, dailyAdd, hdata]
    · exact ⟨daily, by rw [hget], hvalue, hday⟩
  obtain ⟨daily, hget, hvalue, hday⟩ := hdaily
  simp only [dailyUpdateOnlineTime, hget]
  split
  · obtain ⟨hset, hday'⟩ := dailySet_spec hday (BitVec.ofInt 32
      (if now - recordTime s.check now > todaySec start now then todaySec start now
        else daily.value.toNat + now - recordTime s.check now))
    have hput := online_put hday' (update s.data dailyItemOnline (some daily)) ⟨s.check.tickTime, now⟩
    exact ⟨hput.1, by rw [hput.2, hset, hvalue], rfl⟩
  · have hput := online_put hday s.data ⟨s.check.tickTime, recordTime s.check now⟩
    exact ⟨hput.1, by rw [hput.2, hvalue], rfl⟩

theorem dailyGetOnline_spec (start now : ℤ) (s : DailyState) (conn : Bool) :
    let s' := (dailyGetOnlineTime start now s conn).1
    s'.onlineOn start now = s'.online ∧ s'.online = s.onlineOn start now ∧
      (s'.check.dailyOnlineRecordTime = s.check.dailyOnlineRecordTime ∨
        s'.check.dailyOnlineRecordTime = recordTime s.check now) := by
  obtain ⟨hget, hdata, honline⟩ | ⟨daily, hget, hvalue, hday⟩ := @dailyGet_online start now s
  · simp only [dailyGetOnlineTime, hget]
    have hstored : s.online = 0 := by simp [DailyState.online, hdata]
    exact ⟨honline.trans hstored.symm, hstored.trans honline.symm, .inl trivial⟩
  · simp only [dailyGetOnlineTime, hget]
    cases conn with
    | true =>
      have hput := online_put hday s.data ⟨s.check.tickTime, recordTime s.check now⟩
      exact ⟨hput.1, hput.2.trans hvalue, .inr rfl⟩
    | false =>
      have hput := online_put hday s.data s.check
      exact ⟨hput.1, hput.2.trans hvalue, .inl rfl⟩

theorem recordTime_or (check : CheckData) (now : ℤ) :
    recordTime check now = check.dailyOnlineRecordTime ∨ recordTime check now = now := by
  rw [recordTime]
  split
  · exact .inr rfl
  · exact .inl rfl

theorem counts_update {force : Bool} (hcall : e.call = .update force) :
    e.counts s ↔ e.now > recordTime ⟨e.tick, s.check.dailyOnlineRecordTime⟩ e.now ∧
      (force = true ∨ e.now ≥ recordTime ⟨e.tick, s.check.dailyOnlineRecordTime⟩ e.now + 60 * 5) := by
  rw [OnlineEvent.counts, recordTime, hcall]
  constructor
  · rintro ⟨_, hforce, h0, htick, hlt, hlong⟩
    obtain rfl := OnlineCall.update.inj hforce
    have hkeep : ¬ (s.check.dailyOnlineRecordTime = 0 ∨ e.now > e.tick + 5 * 60) := by omega
    rw [if_neg hkeep]
    exact ⟨hlt, hlong⟩
  · by_cases hnew : s.check.dailyOnlineRecordTime = 0 ∨ e.now > e.tick + 5 * 60
    · rw [if_pos hnew]
      rintro ⟨hlt, _⟩
      omega
    · rw [if_neg hnew]
      rintro ⟨hlt, hlong⟩
      exact ⟨force, rfl, by omega, by omega, hlt, hlong⟩

theorem onlineStep_spec (start : ℤ) (s : DailyState) :
    ∃ s', onlineStep start s e = .ok s' ∧ s'.onlineOn start e.now = s'.online ∧
      (e.counts s → s'.online = (BitVec.ofInt 32
          (if e.now - s.check.dailyOnlineRecordTime > todaySec start e.now then todaySec start e.now
            else s.onlineOn start e.now + e.now - s.check.dailyOnlineRecordTime)).toNat ∧
        s'.check.dailyOnlineRecordTime = e.now) ∧
      (¬ e.counts s → s'.online = s.onlineOn start e.now ∧
        (s'.check.dailyOnlineRecordTime = s.check.dailyOnlineRecordTime ∨ s'.check.dailyOnlineRecordTime = e.now)) := by
  have hor := recordTime_or ⟨e.tick, s.check.dailyOnlineRecordTime⟩ e.now
  cases hcall : e.call with
  | get conn =>
    have hspec := dailyGetOnline_spec start e.now ⟨s.data, e.tick, s.check.dailyOnlineRecordTime⟩ conn
    obtain ⟨hon, hstored, hrecord⟩ := hspec
    have hnot : ¬ e.counts s := by
      rintro ⟨force, hforce, _⟩
      rw [hcall] at hforce
      cases hforce
    refine ⟨_, by rw [onlineStep, hcall], hon, fun h => absurd h hnot, fun _ => ⟨hstored, ?_⟩⟩
    obtain hrecord | hrecord := hrecord
    · exact .inl hrecord
    · exact hor.imp hrecord.trans hrecord.trans
  | update force =>
    have hspec := dailyUpdate_spec start e.now ⟨s.data, e.tick, s.check.dailyOnlineRecordTime⟩ force
    obtain ⟨hon, hstored⟩ := hspec
    refine ⟨_, by rw [onlineStep, hcall], hon, fun h => ?_, fun h => ?_⟩
    · rw [if_pos ((counts_update hcall).mp h)] at hstored
      have hkeep : recordTime ⟨e.tick, s.check.dailyOnlineRecordTime⟩ e.now = s.check.dailyOnlineRecordTime := by
        obtain ⟨_, _, h0, htick, _⟩ := h
        exact if_neg (not_or.mpr ⟨h0, not_lt.mpr htick⟩)
      rw [hkeep] at hstored
      exact hstored
    · rw [if_neg (mt (counts_update hcall).mpr h)] at hstored
      exact ⟨hstored.1, hor.imp hstored.2.trans hstored.2.trans⟩

theorem onlineStep_sound_iff (hdawn : dawn = start + day * daySec) (hs : Begun start dawn since s) (hbegun : dawn ≤ since)
    (hsince : since ≤ e.now) (hends : e.now < dawn + daySec) :
    (OnlineRight start dawn s e ↔ OnlineSound start dawn s e) ∧
      (OnlineSound start dawn s e → ∀ s', onlineStep start s e = .ok s' → Begun start dawn e.now s') := by
  obtain ⟨s', hstep, hon, hcounts, hidle⟩ := @onlineStep_spec e start s
  have hday : timelineGetDay start e.now = timelineGetDay start dawn := by
    rw [timelineGetDay_eq hdawn (by omega) hends, timelineGetDay_eq hdawn le_rfl (by unfold daySec; omega)]
  have htoday := todaySec_eq hdawn (hbegun.trans hsince) hends
  obtain ⟨helapsed, hcounted⟩ := hs
  rw [← onlineOn_congr hday] at helapsed hcounted
  have hright : OnlineRight start dawn s e ↔ s.onlineOn start e.now ≤ s'.online ∧ (s'.online : ℤ) ≤ e.now - dawn := by
    constructor
    · rintro ⟨s₁, hs₁, hr⟩
      obtain rfl := ok_unique hstep hs₁
      exact hr
    · exact fun hr => ⟨s', hstep, hr⟩
  have hon' : s'.onlineOn start dawn = s'.online := (onlineOn_congr hday).symm.trans hon
  rw [hright]
  by_cases hc : e.counts s
  · obtain ⟨hstored, hrecord⟩ := hcounts hc
    have hlt : s.check.dailyOnlineRecordTime < e.now := by
      obtain ⟨_, _, _, _, hlt, _⟩ := hc
      exact hlt
    have hgoes : (s'.online : ℤ) ≤ e.now - dawn → Begun start dawn e.now s' := fun hle =>
      ⟨by rw [hon']; exact hle, fun _ => by rw [hon', hrecord]; exact hle⟩
    have hsound : OnlineSound start dawn s e ↔
        if e.now = dawn + daySec - 1 then s.onlineOn start e.now = 0 else dawn ≤ s.check.dailyOnlineRecordTime :=
      ⟨fun h => h hc, fun h _ => h⟩
    rw [hsound]
    unfold daySec at hends htoday ⊢
    by_cases hlast : e.now = dawn + 86400 - 1
    · -- nothing is left of today in its last second
      rw [if_pos hlast] at htoday ⊢
      have hzero : s'.online = 0 := by
        rw [hstored, htoday, if_pos (by omega)]
        rfl
      refine ⟨by omega, fun _ s₁ hs₁ => ?_⟩
      obtain rfl := ok_unique hstep hs₁
      exact hgoes (by omega)
    · rw [if_neg hlast] at htoday ⊢
      by_cases hsame : dawn ≤ s.check.dailyOnlineRecordTime
      · have hvalue : (s'.online : ℤ) = s.onlineOn start e.now + e.now - s.check.dailyOnlineRecordTime := by
          have hle := hcounted hsame
          rw [hstored, htoday, if_neg (by omega), BitVec.toNat_ofInt]
          omega
        have hle := hcounted hsame
        refine ⟨by omega, fun _ s₁ hs₁ => ?_⟩
        obtain rfl := ok_unique hstep hs₁
        exact hgoes (by omega)
      · -- a second too many
        have hmore : (s'.online : ℤ) ≥ e.now - dawn + 1 := by
          rw [hstored, htoday, BitVec.toNat_ofInt]
          split <;> omega
        exact ⟨by omega, fun h => absurd h hsame⟩
  · obtain ⟨hstored, hrecord⟩ := hidle hc
    have hsound : OnlineSound start dawn s e := fun h => absurd h hc
    refine ⟨by simp only [hsound, iff_true]; omega, fun _ s₁ hs₁ => ?_⟩
    obtain rfl := ok_unique hstep hs₁
    refine ⟨by omega, fun hle => ?_⟩
    rw [hon', hstored]
    obtain hrecord | hrecord := hrecord
    · rw [hrecord] at hle ⊢
      exact hcounted hle
    · omega

end Call

/-! ## The calls of a day -/

/-- The time online is right throughout exactly if every call is sound. -/
theorem dailyOnline_iff {start dawn since : ℤ} {day : ℕ} {s : DailyState} {es : List OnlineEvent}
    (hdawn : dawn = start + day * daySec) (hs : Begun start dawn since s) (hes : InDay dawn since es) :
    Along (onlineStep start) (OnlineRight start dawn) s es ↔
      Along (onlineStep start) (OnlineSound start dawn) s es := by
  induction es generalizing s since with
  | nil => exact Iff.rfl
  | cons e es ih =>
    obtain ⟨hbegun, hordered, hends⟩ := hes
    obtain ⟨hsince, hrest⟩ := List.pairwise_cons.mp hordered
    have hnow : since ≤ e.now := hsince e.now (by simp)
    have hes' : InDay dawn e.now es := ⟨hbegun.trans hnow, hrest, fun e' he' => hends e' (List.mem_cons_of_mem e he')⟩
    obtain ⟨hiff, hgoes⟩ := onlineStep_sound_iff hdawn hs hbegun hnow (hends e List.mem_cons_self)
    constructor
    · rintro ⟨hright, hrun⟩
      have hsound := hiff.mp hright
      exact ⟨hsound, fun s' hs' => (ih (hgoes hsound s' hs') hes').mp (hrun s' hs')⟩
    · rintro ⟨hsound, hrun⟩
      exact ⟨hiff.mpr hsound, fun s' hs' => (ih (hgoes hsound s' hs') hes').mpr (hrun s' hs')⟩

def newcomer : DailyState := ⟨fun _ => none, 0, 0⟩

def lastSecond : List OnlineEvent :=
  [⟨172200, 172200, .update false⟩, ⟨172500, 172500, .update false⟩, ⟨172799, 172799, .update true⟩]

theorem dailyOnline_five :
    Along (onlineStep 0) (OnlineRight 0 86400) newcomer (lastSecond.take 2) := by
  have hday : (86400 : ℤ) = 0 + (1 : ℕ) * daySec := by decide
  refine (dailyOnline_iff hday (⟨by decide, by decide⟩ : Begun 0 86400 86400 newcomer) ⟨by decide, by decide, by decide⟩).mpr ?_
  refine ⟨?_, ?_⟩
  · rintro ⟨_, _, h0, _⟩
    exact absurd rfl h0
  · intro s hs
    obtain rfl := Except.ok.inj hs
    exact ⟨fun _ => by decide, fun _ _ => trivial⟩

/-- The last second loses it. -/
theorem lastSecond_lost : Begun 0 86400 86400 newcomer ∧ InDay 86400 86400 lastSecond ∧
    ¬ Along (onlineStep 0) (OnlineRight 0 86400) newcomer lastSecond := by
  refine ⟨⟨by decide, by decide⟩, ⟨by decide, by decide, by decide⟩, ?_⟩
  rintro ⟨_, h⟩
  obtain ⟨_, h⟩ := h _ rfl
  obtain ⟨⟨s', hs', hkept, _⟩, _⟩ := h _ rfl
  obtain rfl := Except.ok.inj hs'
  exact absurd hkept (by decide)

end CServer.Modules
