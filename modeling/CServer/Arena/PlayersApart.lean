import CServer.Arena.RankArena

/-! # `arena/RankArenaPlayer.lua`: players side by side

`setArenaInfo` leaves the two update times of the player it is called for in variables of the module, which every player's
properties are read from afterwards.
-/
namespace CServer.Arena
open CServer.Lib Function List Option

/-! ## Calls and what is seen of them -/

structure ArenaFields where
  order : ℕ
  cwin : ℕ
  fightTime : ℕ
  fightCount : ℕ
  addFightCount : ℕ
  addFightCountTime : ℕ
  dailyRewardFlag : ℕ
  dailyRewardFlagUpdateTime : ℕ
  todayWinCount : ℕ
  todayWinCountUpdateTime : ℕ
  lastRefreshEnemyListTime : ℕ
  deriving DecidableEq

def Row.fields (row : Row) : ArenaFields :=
  ⟨row.order, row.cwin, row.fightTime, row.fightCount, row.addFightCount, row.addFightCountTime, row.dailyRewardFlag,
    row.dailyRewardFlagUpdateTime, row.todayWinCount, row.todayWinCountUpdateTime, row.lastRefreshEnemyListTime⟩

namespace RankArena

def properties (s : RankArena) (id now : ℕ) (db : Db) : Option ArenaFields :=
  (s.getPlayer id).map fun p =>
    let s := { s with now }
    ⟨p.order, p.row.cwin, p.row.fightTime, p.fightCount now, p.addFightCount now, p.row.addFightCountTime,
      p.dailyRewardFlag now, s.readDailyTime p, p.todayWinCount now, (s.readWinTime id p db).2,
      (s.reload id p db).row.lastRefreshEnemyListTime⟩

def columns (s : RankArena) (id : ℕ) : Option ArenaFields := (s.rows id).map Row.fields

end RankArena

structure ArenaCall where
  time : ℕ
  id : ℕ
  info : ArenaInfo
  loaded : Option (List ℕ)

variable (s : RankArena)

def arenaCall (c : ArenaCall) : RankArena :=
  { s with now := c.time }.setArenaInfo c.id c.info ⟨c.loaded, true⟩

def arenaCalls (calls : List ArenaCall) : RankArena := calls.foldl arenaCall s

/-- Every player is what the calls for him alone make of him. -/
def RankArena.Apart (calls : List ArenaCall) : Prop :=
  ∀ id, (arenaCalls s calls).columns id = (arenaCalls s (calls.filter fun c => c.id = id)).columns id ∧
    ∀ now db, (arenaCalls s calls).properties id now db =
      (arenaCalls s (calls.filter fun c => c.id = id)).properties id now db

/-- The two times that the call leaves are those of all other players. -/
def ArenaCall.Alone (c : ArenaCall) : Prop :=
  ∀ p, s.all c.id = some p → ∀ id q, id ≠ c.id → s.all id = some q →
    q.row.dailyRewardFlagUpdateTime = (if c.info.dailyRewardFlag.isSome then c.time else p.row.dailyRewardFlagUpdateTime) ∧
      q.row.todayWinCountUpdateTime = if c.info.todayWinCount.isSome then c.time else p.row.todayWinCountUpdateTime

def RankArena.Stored : Prop :=
  ∀ id p, s.all id = some p → ∃ row, s.rows id = some row ∧ row.fields = p.row.fields

/-- The start of the process: the players were loaded and `setArenaInfo` was not called. -/
structure RankArena.Fresh (s : RankArena) : Prop where
  stored : s.Stored
  daily : s.dailyRewardFlagUpdateTime = none
  win : s.todayWinCountUpdateTime = none

/-! ## What a call leaves -/

def RankArena.Own (id : ℕ) : Prop := ∀ p, s.all id = some p →
  s.readDailyTime p = p.row.dailyRewardFlagUpdateTime ∧
    s.todayWinCountUpdateTime.getD p.row.todayWinCountUpdateTime = p.row.todayWinCountUpdateTime

def ArenaFields.row (f : ArenaFields) : Row where
  order := f.order
  cwin := f.cwin
  fightTime := f.fightTime
  fightCount := f.fightCount
  addFightCount := f.addFightCount
  addFightCountTime := f.addFightCountTime
  dailyRewardFlag := f.dailyRewardFlag
  dailyRewardFlagUpdateTime := f.dailyRewardFlagUpdateTime
  todayWinCount := f.todayWinCount
  todayWinCountUpdateTime := f.todayWinCountUpdateTime
  lastRefreshEnemyListTime := f.lastRefreshEnemyListTime

def ArenaCall.leave (c : ArenaCall) (f : ArenaFields) : ArenaFields :=
  let p : Player := { row := f.row }
  if c.info.noChange p c.time then f
  else
    (c.info.row p p c.time (if c.info.dailyRewardFlag.isSome then c.time else f.dailyRewardFlagUpdateTime)
      (if c.info.todayWinCount.isSome then c.time else f.todayWinCountUpdateTime)).fields

theorem noChange_flags {a : ArenaInfo} {p : Player} {now : ℕ} (h : a.noChange p now = true) :
    a.dailyRewardFlag = none ∧ a.todayWinCount = none := by
  simp only [ArenaInfo.noChange, Bool.and_eq_true, isNone_iff_eq_none] at h
  exact ⟨h.1.1.2, h.1.2⟩

theorem leave_times (c : ArenaCall) (f : ArenaFields) :
    (c.leave f).dailyRewardFlagUpdateTime =
        (if c.info.dailyRewardFlag.isSome then c.time else f.dailyRewardFlagUpdateTime) ∧
      (c.leave f).todayWinCountUpdateTime = if c.info.todayWinCount.isSome then c.time else f.todayWinCountUpdateTime := by
  unfold ArenaCall.leave
  dsimp only
  by_cases hsame : c.info.noChange { row := f.row } c.time = true
  · obtain ⟨hflag, hcount⟩ := noChange_flags hsame
    rw [if_pos hsame, hflag, hcount]
    exact ⟨rfl, rfl⟩
  · rw [if_neg hsame]
    exact ⟨rfl, rfl⟩

theorem row_fields (a : ArenaInfo) {p loaded : Player} (now dailyTime winTime : ℕ) (h : loaded.row.fields = p.row.fields) :
    (a.row p loaded now dailyTime winTime).fields =
      (a.row { row := p.row.fields.row } { row := p.row.fields.row } now dailyTime winTime).fields := by
  have hlast : loaded.row.lastRefreshEnemyListTime = p.row.lastRefreshEnemyListTime :=
    congrArg ArenaFields.lastRefreshEnemyListTime h
  unfold Row.fields ArenaInfo.row
  rw [hlast]
  rfl

section Calls
variable {s t : RankArena} {c : ArenaCall} {id : ℕ} {p : Player}

theorem reload_fields (hs : s.Stored) (hp : s.all id = some p) (db : Db) :
    (s.reload id p db).row.fields = p.row.fields := by
  obtain ⟨row, hrow, hfields⟩ := hs id p hp
  unfold RankArena.reload RankArena.loadPlayerArenaInfo
  rw [hrow]
  cases db.loaded with
  | none => rfl
  | some enemies =>
    simp only [getD_some]
    rw [← hfields]
    split_ifs <;> rfl

theorem readWinTime_fields (hs : s.Stored) (hp : s.all id = some p) (db : Db) :
    (s.readWinTime id p db).1.row.fields = p.row.fields ∧
      (s.readWinTime id p db).2 = s.todayWinCountUpdateTime.getD p.row.todayWinCountUpdateTime := by
  have hreload := reload_fields hs hp db
  unfold RankArena.readWinTime
  cases s.todayWinCountUpdateTime with
  | some time => exact ⟨rfl, rfl⟩
  | none => exact ⟨hreload, congrArg ArenaFields.todayWinCountUpdateTime hreload⟩

theorem arenaCall_other (hid : id ≠ c.id) :
    (arenaCall s c).all id = s.all id ∧ (arenaCall s c).rows id = s.rows id := by
  unfold arenaCall RankArena.setArenaInfo
  split
  · exact ⟨rfl, rfl⟩
  · rename_i old _
    cases hchange : c.info.noChange old c.time with
    | true =>
      simp only [hchange, if_true]
      exact ⟨update_of_ne hid .., rfl⟩
    | false =>
      simp only [hchange, Bool.false_eq_true, if_false, if_true]
      exact ⟨update_of_ne hid .., update_of_ne hid ..⟩

theorem arenaCall_absent (hp : s.all c.id = none) : arenaCall s c = { s with now := c.time } := by
  unfold arenaCall RankArena.setArenaInfo RankArena.getPlayer
  simp only [hp]

theorem arenaCall_self (hs : s.Stored) (hp : s.all c.id = some p) :
    ∃ p' row, (arenaCall s c).all c.id = some p' ∧ (arenaCall s c).rows c.id = some row ∧ row.fields = p'.row.fields ∧
      (arenaCall s c).dailyRewardFlagUpdateTime =
        some (if c.info.dailyRewardFlag.isSome then c.time else s.readDailyTime p) ∧
      (arenaCall s c).todayWinCountUpdateTime = some (if c.info.todayWinCount.isSome then c.time else
        s.todayWinCountUpdateTime.getD p.row.todayWinCountUpdateTime) ∧
      (s.Own c.id → p'.row.fields = c.leave p.row.fields) := by
  have hs' : ({ s with now := c.time } : RankArena).Stored := hs
  obtain ⟨row, hrow, hfields⟩ := hs c.id p hp
  obtain ⟨hloaded, hwin⟩ := readWinTime_fields hs' hp ⟨c.loaded, true⟩
  have hsame : c.info.noChange { row := p.row.fields.row } c.time = c.info.noChange p c.time := rfl
  change _ = s.todayWinCountUpdateTime.getD _ at hwin
  unfold arenaCall RankArena.setArenaInfo RankArena.getPlayer
  simp only [hp]
  generalize ({ s with now := c.time } : RankArena).readWinTime c.id p ⟨c.loaded, true⟩ = read at hloaded hwin ⊢
  obtain ⟨loaded, time⟩ := read
  dsimp only at hloaded hwin
  subst hwin
  cases hchange : c.info.noChange p c.time with
  | true =>
    refine ⟨_, row, update_self .., hrow, hfields.trans hloaded.symm, rfl, rfl, fun _ => ?_⟩
    rw [ArenaCall.leave, hsame, hchange, if_pos rfl]
    exact hloaded
  | false =>
    refine ⟨_, _, update_self .., update_self .., rfl, rfl, rfl, fun howns => ?_⟩
    obtain ⟨hdaily, hown⟩ := howns p hp
    rw [ArenaCall.leave, hsame, hchange, if_neg Bool.false_ne_true]
    show Row.fields (c.info.row p loaded c.time (if c.info.dailyRewardFlag.isSome then c.time else s.readDailyTime p)
      (if c.info.todayWinCount.isSome then c.time else
        s.todayWinCountUpdateTime.getD p.row.todayWinCountUpdateTime)) = _
    rw [hdaily, hown]
    exact row_fields _ _ _ _ hloaded

theorem Stored.call (hs : s.Stored) (c : ArenaCall) : (arenaCall s c).Stored := by
  intro id q hq
  by_cases hid : id = c.id
  · subst hid
    cases hp : s.all c.id with
    | none =>
      rw [arenaCall_absent hp] at hq
      exact nomatch hq.symm.trans hp
    | some p =>
      obtain ⟨p', row, hp', hrow, hfields, -⟩ := arenaCall_self hs hp
      obtain rfl := some_unique hq hp'
      exact ⟨row, hrow, hfields⟩
  · obtain ⟨hall, hrows⟩ := arenaCall_other (s := s) hid
    rw [hall] at hq
    rw [hrows]
    exact hs id q hq

theorem Own.call (hs : s.Stored) (ho : s.Own c.id) : (arenaCall s c).Own c.id := by
  intro q hq
  cases hp : s.all c.id with
  | none =>
    rw [arenaCall_absent hp] at hq
    exact nomatch hq.symm.trans hp
  | some p =>
    obtain ⟨p', row, hp', -, -, hdaily, hwin, hleave⟩ := arenaCall_self hs hp
    obtain rfl := some_unique hq hp'
    obtain ⟨hd, hw⟩ := leave_times c p.row.fields
    rw [← hleave ho] at hd hw
    rw [RankArena.readDailyTime, hdaily, hwin, (ho p hp).1, (ho p hp).2]
    exact ⟨hd.symm, hw.symm⟩

/-! ## Two runs -/

structure Alongside (id : ℕ) (s t : RankArena) : Prop where
  fields : (s.all id).map (fun p => p.row.fields) = (t.all id).map fun p => p.row.fields
  columns : s.columns id = t.columns id
  own : s.Own id

theorem properties_eq (hs : s.Stored) (ho : s.Own id) (hp : s.all id = some p) (now : ℕ) (db : Db) :
    s.properties id now db = some { p.row.fields with
      fightCount := if refreshed p.row.fields.fightTime now fightCountRefresh then 0 else p.row.fields.fightCount
      addFightCount :=
        if refreshed p.row.fields.addFightCountTime now fightCountRefresh then 0 else p.row.fields.addFightCount
      dailyRewardFlag := if refreshed p.row.fields.dailyRewardFlagUpdateTime now 0 then 0 else p.row.fields.dailyRewardFlag
      todayWinCount := if refreshed p.row.fields.todayWinCountUpdateTime now 0 then 0 else p.row.fields.todayWinCount } := by
  have hs' : ({ s with now } : RankArena).Stored := hs
  have hlast : (({ s with now } : RankArena).reload id p db).row.lastRefreshEnemyListTime =
      p.row.lastRefreshEnemyListTime := congrArg ArenaFields.lastRefreshEnemyListTime (reload_fields hs' hp db)
  have hwin := (readWinTime_fields hs' hp db).2
  have hdaily : ({ s with now } : RankArena).readDailyTime p = p.row.dailyRewardFlagUpdateTime := (ho p hp).1
  change _ = s.todayWinCountUpdateTime.getD _ at hwin
  rw [(ho p hp).2] at hwin
  unfold RankArena.properties RankArena.getPlayer
  rw [hp]
  simp only [map_some, hdaily, hwin, hlast]
  rfl

theorem alongside_iff (hs : s.Stored) (ht : t.Stored) (ho : t.Own id) :
    (s.columns id = t.columns id ∧ ∀ now db, s.properties id now db = t.properties id now db) ↔ Alongside id s t := by
  constructor
  · rintro ⟨hcolumns, hproperties⟩
    -- no row is loaded again for this reading
    have hread := hproperties 0 ⟨none, true⟩
    cases hp : s.all id with
    | none =>
      cases hq : t.all id with
      | none => exact ⟨by rw [hp, hq], hcolumns, fun p hp' => nomatch hp.symm.trans hp'⟩
      | some q =>
        unfold RankArena.properties RankArena.getPlayer at hread
        rw [hp, hq] at hread
        exact nomatch hread
    | some p =>
      cases hq : t.all id with
      | none =>
        unfold RankArena.properties RankArena.getPlayer at hread
        rw [hp, hq] at hread
        exact nomatch hread
      | some q =>
        obtain ⟨row, hrow, hfields⟩ := hs id p hp
        obtain ⟨row', hrow', hfields'⟩ := ht id q hq
        have hsame : p.row.fields = q.row.fields := by
          rw [RankArena.columns, RankArena.columns, hrow, hrow'] at hcolumns
          rw [← hfields, ← hfields']
          exact some.inj hcolumns
        refine ⟨by rw [hp, hq, map_some, map_some, hsame], hcolumns, fun p₁ hp₁ => ?_⟩
        obtain rfl : p = p₁ := some_unique hp hp₁
        rw [properties_eq ht ho hq] at hread
        have hwin := (readWinTime_fields (s := { s with now := 0 }) hs hp ⟨none, true⟩).2
        unfold RankArena.properties RankArena.getPlayer at hread
        rw [hp, map_some] at hread
        have hread' := some.inj hread
        rw [ArenaFields.mk.injEq] at hread'
        have hdaily := congrArg ArenaFields.dailyRewardFlagUpdateTime hsame
        have hwins := congrArg ArenaFields.todayWinCountUpdateTime hsame
        exact ⟨hread'.2.2.2.2.2.2.2.1.trans hdaily.symm, hwin.symm.trans (hread'.2.2.2.2.2.2.2.2.2.1.trans hwins.symm)⟩
  · rintro ⟨hfields, hcolumns, hown⟩
    refine ⟨hcolumns, fun now db => ?_⟩
    cases hp : s.all id with
    | none =>
      rw [hp] at hfields
      have hq : t.all id = none := map_eq_none_iff.mp hfields.symm
      unfold RankArena.properties RankArena.getPlayer
      rw [hp, hq]
      rfl
    | some p =>
      rw [hp, map_some] at hfields
      obtain ⟨q, hq, hsame⟩ := map_eq_some_iff.mp hfields.symm
      rw [properties_eq hs hown hp, properties_eq ht ho hq, hsame]

theorem Alongside.call (hs : s.Stored) (ht : t.Stored) (ho : t.Own c.id) (h : Alongside c.id s t) :
    Alongside c.id (arenaCall s c) (arenaCall t c) := by
  have hfields := h.fields
  cases hp : s.all c.id with
  | none =>
    rw [hp] at hfields
    have hq : t.all c.id = none := map_eq_none_iff.mp hfields.symm
    refine ⟨?_, ?_, Own.call hs h.own⟩
    · rw [arenaCall_absent hp, arenaCall_absent hq]
      exact h.fields
    · rw [arenaCall_absent hp, arenaCall_absent hq]
      exact h.columns
  | some p =>
    rw [hp, map_some] at hfields
    obtain ⟨q, hq, hsame⟩ := map_eq_some_iff.mp hfields.symm
    obtain ⟨p', row, hp', hrow, hrowp, -, -, hleave⟩ := arenaCall_self hs hp
    obtain ⟨q', row', hq', hrow', hrowq, -, -, hleave'⟩ := arenaCall_self ht hq
    have hend : p'.row.fields = q'.row.fields := by rw [hleave h.own, hleave' ho, hsame]
    refine ⟨?_, ?_, Own.call hs h.own⟩
    · rw [hp', hq', map_some, map_some, hend]
    · rw [RankArena.columns, RankArena.columns, hrow, hrow', map_some, map_some, hrowp, hrowq, hend]

theorem alongside_step {solo : ℕ → RankArena} (hs : s.Stored) (ht : ∀ id, (solo id).Stored) (ho : ∀ id, (solo id).Own id)
    (h : ∀ id, Alongside id s (solo id)) :
    (∀ id, Alongside id (arenaCall s c) (if c.id = id then arenaCall (solo id) c else solo id)) ↔ c.Alone s := by
  constructor
  · intro hstep p hp id q hid hq
    obtain ⟨p', row, -, -, -, hdaily, hwin, -⟩ := arenaCall_self hs hp
    have hq' : (arenaCall s c).all id = some q := (arenaCall_other hid).1.trans hq
    obtain ⟨hd, hw⟩ := (hstep id).own q hq'
    rw [RankArena.readDailyTime, hdaily, getD_some, ((h c.id).own p hp).1] at hd
    rw [hwin, getD_some, ((h c.id).own p hp).2] at hw
    exact ⟨hd.symm, hw.symm⟩
  · intro halone id
    by_cases hid : c.id = id
    · subst hid
      rw [if_pos rfl]
      exact (h c.id).call hs (ht c.id) (ho c.id)
    · rw [if_neg hid]
      obtain ⟨hall, hrows⟩ := arenaCall_other (s := s) (Ne.symm hid)
      refine ⟨by rw [hall]; exact (h id).fields, ?_, fun q hq => ?_⟩
      · rw [RankArena.columns, hrows]
        exact (h id).columns
      · rw [hall] at hq
        cases hp : s.all c.id with
        | none =>
          rw [arenaCall_absent hp]
          exact (h id).own q hq
        | some p =>
          obtain ⟨p', row, -, -, -, hdaily, hwin, -⟩ := arenaCall_self hs hp
          obtain ⟨hd, hw⟩ := halone p hp id q (Ne.symm hid) hq
          rw [RankArena.readDailyTime, hdaily, hwin, ((h c.id).own p hp).1, ((h c.id).own p hp).2]
          exact ⟨hd.symm, hw.symm⟩

end Calls

/-! ## Whole runs -/

section Runs
variable {s : RankArena}

theorem arenaCalls_concat (s : RankArena) (calls : List ArenaCall) (c : ArenaCall) :
    arenaCalls s (calls ++ [c]) = arenaCall (arenaCalls s calls) c := foldl_concat ..

theorem arenaCalls_stored (hs : s.Stored) (calls : List ArenaCall) : (arenaCalls s calls).Stored := by
  induction calls using List.reverseRecOn with
  | nil => exact hs
  | append_singleton calls c ih =>
    rw [arenaCalls_concat]
    exact Stored.call ih c

theorem arenaCalls_own {id : ℕ} (hs : s.Stored) (ho : s.Own id) (calls : List ArenaCall) (hcalls : ∀ c ∈ calls, c.id = id) :
    (arenaCalls s calls).Own id := by
  induction calls using List.reverseRecOn with
  | nil => exact ho
  | append_singleton calls c ih =>
    rw [arenaCalls_concat]
    have hc : c.id = id := hcalls c (by simp)
    subst hc
    exact Own.call (arenaCalls_stored hs calls) (ih fun d hd => hcalls d (by simp [hd]))

theorem solo_concat (s : RankArena) (calls : List ArenaCall) (c : ArenaCall) (id : ℕ) :
    arenaCalls s ((calls ++ [c]).filter fun c => c.id = id) =
      if c.id = id then arenaCall (arenaCalls s (calls.filter fun c => c.id = id)) c
      else arenaCalls s (calls.filter fun c => c.id = id) := by
  rw [filter_append]
  split_ifs with hid
  · rw [filter_cons_of_pos (by simpa using hid), filter_nil, arenaCalls_concat]
  · rw [filter_cons_of_neg (by simpa using hid), filter_nil, append_nil]

theorem fresh_own (hs : s.Fresh) (id : ℕ) : s.Own id := fun p _ => by
  rw [RankArena.readDailyTime, hs.daily, hs.win]
  exact ⟨rfl, rfl⟩

theorem apart_iff (hs : s.Fresh) (calls : List ArenaCall) : s.Apart calls ↔
    ∀ id, Alongside id (arenaCalls s calls) (arenaCalls s (calls.filter fun c => c.id = id)) := by
  refine forall_congr' fun id => alongside_iff (arenaCalls_stored hs.stored calls) (arenaCalls_stored hs.stored _) ?_
  exact arenaCalls_own hs.stored (fresh_own hs id) _ fun c hc => by simpa using (mem_filter.mp hc).2

/-- By induction on the calls from their end. -/
theorem playersApart_iff (s : RankArena) (hs : s.Fresh) (calls : List ArenaCall) :
    (∀ done, done <+: calls → s.Apart done) ↔
      Along (fun s c => (.ok (arenaCall s c) : Except Fault RankArena)) (fun s c => c.Alone s) s calls := by
  induction calls using List.reverseRecOn with
  | nil =>
    refine iff_of_true (fun done hdone => ?_) trivial
    rw [prefix_nil.mp hdone]
    exact (apart_iff hs []).mpr fun id => ⟨rfl, rfl, fresh_own hs id⟩
  | append_singleton calls c ih =>
    have hparts : (∀ done, done <+: calls ++ [c] → s.Apart done) ↔
        (∀ done, done <+: calls → s.Apart done) ∧ s.Apart (calls ++ [c]) := by
      simp only [prefix_concat_iff, or_imp, forall_and, forall_eq]
      exact and_comm
    rw [hparts, along_concat, run_total, ← ih]
    refine and_congr_right fun h => ?_
    rw [apart_iff hs]
    simp only [solo_concat, arenaCalls_concat]
    rw [alongside_step (arenaCalls_stored hs.stored calls) (fun id => arenaCalls_stored hs.stored _)
      (fun id => arenaCalls_own hs.stored (fresh_own hs id) _ fun c hc => by simpa using (mem_filter.mp hc).2)
      ((apart_iff hs calls).mp (h calls (prefix_refl calls)))]
    simp only [Except.ok.injEq, forall_eq']
    exact Iff.rfl

end Runs

def newcomers : RankArena where
  rows id := if id = 7 then some { order := 1 } else if id = 8 then some { order := 2 } else none
  all id := if id = 7 then some ⟨{ order := 1 }, []⟩ else if id = 8 then some ⟨{ order := 2 }, []⟩ else none

theorem newcomers_fresh : newcomers.Fresh := by
  refine ⟨fun id p hp => ⟨p.row, ?_, rfl⟩, rfl, rfl⟩
  unfold newcomers at hp ⊢
  dsimp only at hp ⊢
  split_ifs at hp ⊢
  · rw [← some.inj hp]
  · rw [← some.inj hp]

def reordered : List ArenaCall :=
  [⟨1300000000, 7, { order := some 3 }, none⟩, ⟨1300000005, 8, { order := some 1 }, none⟩]

theorem newcomers_times {id : ℕ} {p : Player} (hp : newcomers.all id = some p) :
    p.row.dailyRewardFlagUpdateTime = 0 ∧ p.row.todayWinCountUpdateTime = 0 := by
  unfold newcomers at hp
  dsimp only at hp
  split_ifs at hp <;> rw [← some.inj hp] <;> exact ⟨rfl, rfl⟩

theorem reordered_times {id : ℕ} {p : Player}
    (hp : (arenaCall newcomers ⟨1300000000, 7, { order := some 3 }, none⟩).all id = some p) :
    p.row.dailyRewardFlagUpdateTime = 0 ∧ p.row.todayWinCountUpdateTime = 0 := by
  by_cases hid : id = 7
  · subst hid
    have h7 : newcomers.all 7 = some ⟨{ order := 1 }, []⟩ := rfl
    obtain ⟨q, _, hq, _, _, _, _, hleave⟩ := arenaCall_self (c := ⟨1300000000, 7, { order := some 3 }, none⟩)
      newcomers_fresh.stored h7
    obtain rfl := some_unique hp hq
    have hfields := hleave (fresh_own newcomers_fresh 7)
    exact ⟨congrArg ArenaFields.dailyRewardFlagUpdateTime hfields, congrArg ArenaFields.todayWinCountUpdateTime hfields⟩
  · exact newcomers_times ((arenaCall_other hid).1.symm.trans hp)

/-- Neither call brings a reward or a win, and the times of both players are 0. -/
theorem playersApart_iff_reordered :
    Along (fun s c => (.ok (arenaCall s c) : Except Fault RankArena)) (fun s c => c.Alone s) newcomers reordered ∧
      ∀ done, done <+: reordered → newcomers.Apart done := by
  have halong : Along (fun s c => (.ok (arenaCall s c) : Except Fault RankArena)) (fun s c => c.Alone s) newcomers
      reordered := by
    refine .cons ?_ rfl (.cons ?_ rfl trivial)
    · intro p hp id q _ hq
      have hq' := newcomers_times hq
      exact ⟨hq'.1.trans (newcomers_times hp).1.symm, hq'.2.trans (newcomers_times hp).2.symm⟩
    · intro p hp id q _ hq
      have hq' := reordered_times hq
      exact ⟨hq'.1.trans (reordered_times hp).1.symm, hq'.2.trans (reordered_times hp).2.symm⟩
  exact ⟨halong, (playersApart_iff newcomers newcomers_fresh reordered).mpr halong⟩

def rewarded : List ArenaCall :=
  [⟨1300000000, 7, { dailyRewardFlag := some 1 }, none⟩, ⟨1300000005, 8, { order := some 3 }, none⟩]

/-- The second one's row has the time of the first one's reward. -/
theorem playersApart_leaked : ¬ newcomers.Apart rewarded := by
  intro h
  exact absurd (h 8).1 (by decide +kernel)

end CServer.Arena
