import CServer.Logic.FightSet

/-! # `world/logic/aL.c`: how often a fight is fought on a day

`aL_pve_fight_prepare` checks what a fight requires and then the count of the day; `aL_pve_fight_confirm` counts a fight
that was fought. The confirm asks `fight_get` for the record, which sets a count of another day to 0; the prepare takes
the record as it is, with the count of the day on which it was last confirmed unless something else asked for it since.
-/
namespace CServer.Logic
open CServer.Lib CServer.Modules Function Option

/-! ## The code -/

def retFightCheckDependFail : ℤ := 31
def retFightCheckLevelFail : ℤ := 32
def retFightCheckBattleFail : ℤ := 34
def retFightCheckChapterFail : ℤ := 35
def retFightCheckAutoFail : ℤ := 36
def retFightCheckSpaceFail : ℤ := 38
def retFightCheckStarFail : ℤ := 39

def fightSpaceTime : ℤ := 5

/-- What a request meets outside the fights. `affordable` says that `pve_fight_consume` succeeds, `quest` whether a quest
was counted, and `time` is what `time(NULL)` returns. -/
structure Standing where
  level : ℤ
  totalStar : ℤ
  quest : ℤ → Bool
  affordable : Bool
  time : ℤ

structure PrepareRequest where
  gid : ℤ
  autoFight : ℤ
  yjdq : ℤ

def checkDependFight (t : PveTables) (now : ℤ) (set : FightSet) (fightId : ℤ) : FightSet × Bool :=
  if fightId = 0 then (set, true)
  else
    match t.fight fightId with
    | none => (set, false)
    | some _ => fightResult now set fightId

def checkDependFights (t : PveTables) (now : ℤ) (set : FightSet) (cfg : PveRules) : FightSet × Bool :=
  match checkDependFight t now set cfg.dependFight0Id with
  | (set, ok) => if ok then checkDependFight t now set cfg.dependFight1Id else (set, false)

def checkBattleFight (t : PveTables) (now : ℤ) (p : Standing) (set : FightSet) (gid : ℤ) : FightSet × Bool :=
  match t.fightBattle gid with
  | none => (set, true)
  | some battle =>
    if battle.relyBattle = 0 then (set, true)
    else
      match t.battle battle.relyBattle with
      | none => (set, false)
      | some rely =>
        match t.fight rely.finishId with
        | none => (set, false)
        | some _ =>
          match fightResult now set rely.finishId with
          | (set, won) => (set, won && (decide (battle.questId ≤ 0) || p.quest battle.questId))

def checkChapterFight (t : PveTables) (now : ℤ) (set : FightSet) (gid : ℤ) : FightSet × Bool :=
  match t.fightChapter gid with
  | none => (set, true)
  | some chapter =>
    if chapter.relyChapter = 0 then (set, true)
    else
      match t.chapter chapter.relyChapter with
      | none => (set, false)
      | some rely =>
        match t.battle rely.finishId with
        | none => (set, false)
        | some battle =>
          match t.fight battle.finishId with
          | none => (set, false)
          | some _ => fightResult now set battle.finishId

def checkFights (t : PveTables) (now : ℤ) (p : Standing) (set : FightSet) (gid : ℤ) (cfg : PveRules) : FightSet × ℤ :=
  match checkDependFights t now set cfg with
  | (set, false) => (set, retFightCheckDependFail)
  | (set, true) =>
    match checkBattleFight t now p set gid with
    | (set, false) => (set, retFightCheckBattleFail)
    | (set, true) =>
      match checkChapterFight t now set gid with
      | (set, false) => (set, retFightCheckChapterFail)
      | (set, true) => (set, if p.affordable then retSuccess else retNotEnough)

def checkSpace (now : ℤ) (p : Standing) (set : FightSet) : Except Fault (FightSet × ℤ) :=
  if set.curFightId = 0 then .ok (set, retSuccess)
  else
    match fightGet now set set.curFightId with
    | (_, none) => .error .outOfBounds
    | (set, some cur) =>
      .ok (set, if p.time - cur.updateTime ≤ fightSpaceTime then retFightCheckSpaceFail else retSuccess)

/-- A prepare up to its call of `fight_prepare`: whether all that is required is there. -/
def prepareChecks (t : PveTables) (now : ℤ) (p : Standing) (set : FightSet) (r : PrepareRequest) (cfg : PveRules) :
    Except Fault (FightSet × ℤ) :=
  if r.autoFight ≠ 0 ∧ cfg.supportGodHand = 0 then .ok (set, retFightCheckAutoFail)
  else if r.yjdq ≠ 0 ∧ cfg.canYjdq = 0 then .ok (set, retFightCheckYjdqFail)
  else if cfg.dependLevelId > p.level then .ok (set, retFightCheckLevelFail)
  else if p.totalStar < cfg.dependStarCount then .ok (set, retFightCheckStarFail)
  else
    match checkFights t now p set r.gid cfg with
    | (set, ret) => if ret ≠ retSuccess then .ok (set, ret) else checkSpace now p set

def pveFightPrepare (t : PveTables) (now : ℤ) (p : Standing) (set : FightSet) (r : PrepareRequest) :
    Except Fault (FightSet × ℤ) :=
  match t.fight r.gid with
  | none => .ok (set, retNotExist)
  | some cfg => do
    let (set, ret) ← prepareChecks t now p set r cfg
    if ret ≠ retSuccess then .ok (set, ret) else .ok (fightPrepare t now set r.gid cfg.countPerDay r.yjdq)

def pveFightConfirm (t : PveTables) (now : ℤ) (affordable : Bool) (set : FightSet) (gid : ℤ) (star : BitVec 32) :
    FightSet × ℤ :=
  match t.fight gid with
  | none => (set, retError)
  | some cfg =>
    match fightGet now set gid with
    | (set, none) => (set, retNotExist)
    | (set, some fight) =>
      if fight.todayCount ≥ cfg.countPerDay then (set, retFightCheckCountFail)
      else
        match fightCheck set gid with
        | (set, ret) =>
          if ret ≠ retSuccess then (set, ret)
          else if affordable = false then (set, retNotEnough)
          else (set.updateData now gid fight 1 star (fight.todayCount + 1), retSuccess)

/-! ## Requests -/

inductive FightRequest
  | prepare (p : Standing) (r : PrepareRequest)
  | confirm (affordable : Bool) (gid : ℤ) (star : BitVec 32)
  | get (gid : ℤ)
  | next (ite : Option ℤ)

structure FightCall where
  now : ℤ
  request : FightRequest

/-- `wins` are the successful confirms, last first, with their days; `clock` is the time of the last request. -/
structure FightDays where
  set : FightSet
  wins : List (ℤ × ℤ)
  clock : ℤ

def fightDaysNew : FightDays := ⟨fightNew, [], 0⟩

def fightStep (t : PveTables) (s : FightDays) (c : FightCall) : Except Fault FightDays :=
  match c.request with
  | .prepare p r => (pveFightPrepare t c.now p s.set r).map fun x => ⟨x.1, s.wins, c.now⟩
  | .confirm affordable gid star =>
    match pveFightConfirm t c.now affordable s.set gid star with
    | (set, ret) => .ok ⟨set, if ret = retSuccess then (gid, fightDay c.now) :: s.wins else s.wins, c.now⟩
  | .get gid => .ok ⟨(fightGet c.now s.set gid).1, s.wins, c.now⟩
  | .next ite => .ok ⟨(fightNext c.now s.set ite).1, s.wins, c.now⟩

def Timely (s : FightDays) (c : FightCall) : Prop := s.clock ≤ c.now ∧ c.now < 2 ^ 31

def Limited (t : PveTables) (s : FightDays) : Prop :=
  ∀ gid cfg, t.fight gid = some cfg → ∀ day, s.wins.count (gid, day) ≤ cfg.countPerDay.toNat

/-- A prepare for which all that is required is there is refused for the count exactly if the confirms of the day have
reached the limit. -/
def PrepareRight (t : PveTables) (s : FightDays) (c : FightCall) : Prop :=
  ∀ p r, c.request = .prepare p r → ∀ cfg, t.fight r.gid = some cfg → ∀ set ret,
    pveFightPrepare t c.now p s.set r = .ok (set, ret) → ret = retSuccess ∨ ret = retFightCheckCountFail →
      (ret = retFightCheckCountFail ↔ cfg.countPerDay ≤ s.wins.count (r.gid, fightDay c.now))

/-- The record that a prepare finds is of today, or its count is below the limit; a fight without a record may be fought. -/
def Countable (now limit : ℤ) : Option Fight → Prop
  | none => 0 < limit
  | some fight => fightDay now = fightDay fight.updateTime ∨ fight.todayCount < limit ∨ limit ≤ 0

def Starred (yjdq : ℤ) (fight : Option Fight) : Prop := yjdq > 0 → ∃ f ∈ fight, 0 < f.star.toInt

/-- A prepare that gets as far as the count finds a record that can be compared with the limit. -/
def NotStale (t : PveTables) (s : FightDays) (c : FightCall) : Prop :=
  ∀ p r, c.request = .prepare p r → ∀ cfg, t.fight r.gid = some cfg → ∀ set,
    prepareChecks t c.now p s.set r cfg = .ok (set, retSuccess) → Starred r.yjdq (set.m r.gid) →
      Countable c.now cfg.countPerDay (set.m r.gid)

theorem fightDay_mono {a b : ℤ} (h : a ≤ b) : fightDay a ≤ fightDay b := by
  unfold fightDay
  apply Int.tdiv_le_tdiv (by norm_num)
  omega

theorem toInt_clock {now : ℤ} (hlo : 0 ≤ now) (hhi : now < 2 ^ 31) : toInt now = now := by
  unfold toInt
  omega

/-! ## The invariant -/

variable {t : PveTables} {s s' : FightDays} {now clock gid : ℤ} {set set' : FightSet} {wins : List (ℤ × ℤ)}

structure Fight.Counts (wins : List (ℤ × ℤ)) (clock gid : ℤ) (f : Fight) : Prop where
  nonneg : 0 ≤ f.todayCount
  time : f.updateTime ≤ clock
  later : ∀ day, fightDay f.updateTime < day → wins.count (gid, day) = 0
  count : f.todayCount = wins.count (gid, fightDay f.updateTime) ∨
    f.todayCount = 0 ∧ fightDay f.updateTime < fightDay clock

theorem Fight.Counts.mono {f : Fight} (h : f.Counts wins clock gid) (hle : clock ≤ now) : f.Counts wins now gid :=
  ⟨h.nonneg, h.time.trans hle, h.later, h.count.imp_right fun hc => ⟨hc.1, hc.2.trans_le (fightDay_mono hle)⟩⟩

theorem Fight.Counts.seen_count {f : Fight} (h : f.Counts wins clock gid) (hle : clock ≤ now) :
    (f.seen now).todayCount = wins.count (gid, fightDay now) := by
  have hday : fightDay f.updateTime ≤ fightDay now := fightDay_mono (h.time.trans hle)
  unfold Fight.seen
  split
  · rename_i hne
    rw [h.later _ (lt_of_le_of_ne hday (Ne.symm hne))]
    rfl
  · rename_i heq
    rw [not_not.mp heq]
    refine h.count.resolve_right fun hc => ?_
    have := fightDay_mono hle
    omega

theorem Fight.Counts.seen {f : Fight} (h : f.Counts wins clock gid) (hle : clock ≤ now) :
    (f.seen now).Counts wins now gid := by
  have hcount := h.seen_count hle
  refine ⟨by omega, ?_, ?_, ?_⟩
  · rw [Fight.seen_updateTime]
    exact h.time.trans hle
  · rw [Fight.seen_updateTime]
    exact h.later
  · rw [Fight.seen_updateTime]
    by_cases hday : fightDay now = fightDay f.updateTime
    · left
      rw [hcount, hday]
    · right
      have hlt := lt_of_le_of_ne (fightDay_mono (h.time.trans hle)) (Ne.symm hday)
      rw [hcount, h.later _ hlt]
      exact ⟨rfl, hlt⟩

structure FightSet.Counts (wins : List (ℤ × ℤ)) (clock : ℤ) (set : FightSet) : Prop where
  cur : set.curFightId ≠ 0 → (set.m set.curFightId).isSome = true
  new : ∀ gid, set.m gid = none → ∀ day, wins.count (gid, day) = 0
  old : ∀ gid f, set.m gid = some f → f.Counts wins clock gid

theorem FightSet.Counts.looked (h : set.Counts wins clock) (hle : clock ≤ now) (hl : Looked now set set') :
    set'.Counts wins now := by
  refine ⟨fun hcur => ?_, fun gid hnone day => ?_, fun gid f hf => ?_⟩
  · rw [hl.curFightId] at hcur ⊢
    rw [hl.isSome]
    exact h.cur hcur
  · have hsame := hl.isSome gid
    rw [hnone, isSome_none] at hsame
    exact h.new gid (isSome_eq_false_iff.mp hsame.symm |> isNone_iff_eq_none.mp) day
  · rcases hl.m gid with hm | hm
    · exact (h.old gid f (hm ▸ hf)).mono hle
    · rw [hm] at hf
      obtain ⟨f₀, hf₀, rfl⟩ := map_eq_some_iff.mp hf
      exact (h.old gid f₀ hf₀).seen hle

theorem Fight.Counts.congr {f : Fight} {wins' : List (ℤ × ℤ)} (h : f.Counts wins clock gid)
    (hwins : ∀ day, wins'.count (gid, day) = wins.count (gid, day)) : f.Counts wins' clock gid :=
  ⟨h.nonneg, h.time, fun day hday => by rw [hwins, h.later day hday], by rw [hwins]; exact h.count⟩

theorem FightSet.Counts.update {f : Fight} {wins' : List (ℤ × ℤ)} (h : set.Counts wins clock)
    (hf : f.Counts wins' clock gid) (hwins : ∀ j, j ≠ gid → ∀ day, wins'.count (j, day) = wins.count (j, day))
    (hm : set'.m = update set.m gid (some f))
    (hcur : set'.curFightId = gid ∨ set'.curFightId = set.curFightId ∨ set'.curFightId = 0) :
    set'.Counts wins' clock := by
  refine ⟨fun hne => ?_, fun j hj day => ?_, fun j g hg => ?_⟩
  · rw [hm]
    rcases hcur with hc | hc | hc
    · rw [hc, update_self, isSome_some]
    · rw [hc] at hne ⊢
      by_cases hgid : set.curFightId = gid
      · rw [hgid, update_self, isSome_some]
      · rw [update_of_ne hgid]
        exact h.cur hne
    · exact absurd hc hne
  · rw [hm] at hj
    by_cases hjg : j = gid
    · rw [hjg, update_self] at hj
      exact nomatch hj
    · rw [update_of_ne hjg] at hj
      rw [hwins j hjg]
      exact h.new j hj day
  · rw [hm] at hg
    by_cases hjg : j = gid
    · rw [hjg, update_self] at hg
      obtain rfl := some.inj hg
      exact hjg ▸ hf
    · rw [update_of_ne hjg] at hg
      exact (h.old j g hg).congr (hwins j hjg)

/-! ## What a prepare requires -/

variable {p : Standing} {r : PrepareRequest} {cfg : PveRules}

theorem looked_depend (set : FightSet) (fightId : ℤ) : Looked now set (checkDependFight t now set fightId).1 := by
  unfold checkDependFight
  split
  · exact looked_refl now set
  · split
    · exact looked_refl now set
    · exact looked_result now set fightId

theorem looked_depends (set : FightSet) (cfg : PveRules) : Looked now set (checkDependFights t now set cfg).1 := by
  unfold checkDependFights
  simp only
  split
  · exact (looked_depend set _).trans (looked_depend _ _)
  · exact looked_depend set _

theorem looked_battle (set : FightSet) (gid : ℤ) : Looked now set (checkBattleFight t now p set gid).1 := by
  unfold checkBattleFight
  split
  · exact looked_refl now set
  · split
    · exact looked_refl now set
    · split
      · exact looked_refl now set
      · split
        · exact looked_refl now set
        · exact looked_result now set _

theorem looked_chapter (set : FightSet) (gid : ℤ) : Looked now set (checkChapterFight t now set gid).1 := by
  unfold checkChapterFight
  split
  · exact looked_refl now set
  · split
    · exact looked_refl now set
    · split
      · exact looked_refl now set
      · split
        · exact looked_refl now set
        · split
          · exact looked_refl now set
          · exact looked_result now set _

theorem looked_fights (set : FightSet) (gid : ℤ) (cfg : PveRules) : Looked now set (checkFights t now p set gid cfg).1 := by
  have hdepends : Looked now set (checkDependFights t now set cfg).1 := looked_depends set cfg
  unfold checkFights
  split
  · rename_i h
    rwa [h] at hdepends
  · rename_i set₁ h
    rw [h] at hdepends
    have hbattle : Looked now set₁ (checkBattleFight t now p set₁ gid).1 := looked_battle set₁ gid
    split
    · rename_i h₁
      rw [h₁] at hbattle
      exact hdepends.trans hbattle
    · rename_i set₂ h₁
      rw [h₁] at hbattle
      have hchapter : Looked now set₂ (checkChapterFight t now set₂ gid).1 := looked_chapter set₂ gid
      split
      · rename_i h₂
        rw [h₂] at hchapter
        exact (hdepends.trans hbattle).trans hchapter
      · rename_i h₂
        rw [h₂] at hchapter
        exact (hdepends.trans hbattle).trans hchapter

theorem checkFights_ret (set : FightSet) (gid : ℤ) (cfg : PveRules) :
    (checkFights t now p set gid cfg).2 ≠ retFightCheckCountFail := by
  unfold checkFights
  split
  · exact (by decide : retFightCheckDependFail ≠ retFightCheckCountFail)
  · split
    · exact (by decide : retFightCheckBattleFail ≠ retFightCheckCountFail)
    · split
      · exact (by decide : retFightCheckChapterFail ≠ retFightCheckCountFail)
      · simp only
        split
        · decide
        · decide

theorem checkSpace_ok (hcur : set.curFightId ≠ 0 → (set.m set.curFightId).isSome = true) :
    ∃ set' ret, checkSpace now p set = .ok (set', ret) ∧ ret ≠ retFightCheckCountFail ∧ Looked now set set' := by
  unfold checkSpace
  split
  · exact ⟨set, _, rfl, by decide, looked_refl now set⟩
  · rename_i hne
    obtain ⟨f, hf⟩ := isSome_iff_exists.mp (hcur hne)
    have hget : fightGet now set set.curFightId = (set.look now set.curFightId, some (f.seen now)) := by
      rw [fightGet, look_self, hf]
      rfl
    rw [hget]
    refine ⟨_, _, rfl, ?_, looked_look now set _⟩
    split
    · decide
    · decide

theorem prepareChecks_ok (hcur : set.curFightId ≠ 0 → (set.m set.curFightId).isSome = true) (r : PrepareRequest)
    (cfg : PveRules) : ∃ set' ret, prepareChecks t now p set r cfg = .ok (set', ret) ∧
      ret ≠ retFightCheckCountFail ∧ Looked now set set' := by
  unfold prepareChecks
  split
  · exact ⟨set, _, rfl, by decide, looked_refl now set⟩
  split
  · exact ⟨set, _, rfl, by decide, looked_refl now set⟩
  split
  · exact ⟨set, _, rfl, by decide, looked_refl now set⟩
  split
  · exact ⟨set, _, rfl, by decide, looked_refl now set⟩
  have hlooked : Looked now set (checkFights t now p set r.gid cfg).1 := looked_fights set r.gid cfg
  simp only
  split
  · exact ⟨_, _, rfl, checkFights_ret set r.gid cfg, hlooked⟩
  · have hcur' : (checkFights t now p set r.gid cfg).1.curFightId ≠ 0 →
        ((checkFights t now p set r.gid cfg).1.m (checkFights t now p set r.gid cfg).1.curFightId).isSome = true := by
      intro hne
      rw [hlooked.curFightId] at hne ⊢
      rw [hlooked.isSome]
      exact hcur hne
    obtain ⟨set', ret, hspace, hret, hlooked'⟩ := checkSpace_ok (p := p) hcur'
    exact ⟨set', ret, hspace, hret, hlooked.trans hlooked'⟩

/-! ## A prepare -/

variable {limit yjdq : ℤ}

theorem fightPrepare_new (hcfg : t.fight gid = some cfg) (hnone : set.m gid = none) (hyjdq : ¬ yjdq > 0) :
    fightPrepare t now set gid limit yjdq =
      (⟨update set.m gid (some ⟨0, 0, toInt now, 0⟩), set.list ++ [gid], gid⟩, retSuccess) := by
  rw [fightPrepare, hnone]
  simp only [if_neg hyjdq]
  rw [fightAdd, hcfg]
  simp only [hnone, isSome_none, Bool.false_eq_true, if_false]
  rfl

theorem fightPrepare_ret (hcfg : t.fight gid = some cfg) :
    ((fightPrepare t now set gid limit yjdq).2 = retSuccess ∨
      (fightPrepare t now set gid limit yjdq).2 = retFightCheckCountFail ↔ Starred yjdq (set.m gid)) ∧
    ((fightPrepare t now set gid limit yjdq).2 = retFightCheckCountFail ↔
      Starred yjdq (set.m gid) ∧ ∃ f ∈ set.m gid, limit ≤ f.todayCount) := by
  have hyjdqFail : ¬ (retFightCheckYjdqFail = retSuccess ∨ retFightCheckYjdqFail = retFightCheckCountFail) := by decide
  have hsuccess : retSuccess ≠ retFightCheckCountFail := by decide
  cases hm : set.m gid with
  | none =>
    by_cases hyjdq : yjdq > 0
    · have hr : (fightPrepare t now set gid limit yjdq).2 = retFightCheckYjdqFail := by
        rw [fightPrepare, hm]
        simp only [if_pos hyjdq]
      have hno : ¬ Starred yjdq none := fun h => by simpa using h hyjdq
      rw [hr]
      simp only [hno, false_and, iff_false]
      decide
    · rw [fightPrepare_new hcfg hm hyjdq]
      have hyes : Starred yjdq none := fun h => absurd h hyjdq
      simp only [hyes]
      refine ⟨by decide, iff_of_false (by decide) (by simp)⟩
  | some f =>
    have hstarred : Starred yjdq (some f) ↔ ¬ (yjdq > 0 ∧ f.star.toInt ≤ 0) := by
      rw [Starred]
      simp only [mem_some_iff, exists_eq_left', not_and, not_le]
    rw [hstarred]
    have hcount : (∃ g ∈ some f, limit ≤ g.todayCount) ↔ limit ≤ f.todayCount := by simp
    rw [hcount, fightPrepare, hm]
    by_cases hs : yjdq > 0 ∧ f.star.toInt ≤ 0
    · simp only [if_pos hs]
      exact ⟨iff_of_false hyjdqFail (not_not.mpr hs), iff_of_false (fun h => hyjdqFail (.inr h)) fun h => h.1 hs⟩
    · simp only [if_neg hs]
      by_cases hlimit : f.todayCount ≥ limit
      · simp only [if_pos hlimit]
        exact ⟨iff_of_true (.inr trivial) hs, iff_of_true trivial ⟨hs, hlimit⟩⟩
      · simp only [if_neg hlimit]
        exact ⟨iff_of_true (.inl trivial) hs, iff_of_false hsuccess fun h => hlimit h.2⟩

theorem FightSet.Counts.countable_iff (h : set.Counts wins now) (gid : ℤ) :
    ((∃ f ∈ set.m gid, limit ≤ f.todayCount) ↔ limit ≤ wins.count (gid, fightDay now)) ↔
      Countable now limit (set.m gid) := by
  cases hm : set.m gid with
  | none =>
    rw [h.new gid hm, Countable]
    simp
  | some f =>
    have hf := h.old gid f hm
    have hnonneg := hf.nonneg
    have hsome : (∃ g ∈ some f, limit ≤ g.todayCount) ↔ limit ≤ f.todayCount := by simp
    rw [hsome, Countable]
    by_cases hday : fightDay now = fightDay f.updateTime
    · have hcount : f.todayCount = wins.count (gid, fightDay now) := by
        rw [hday]
        exact hf.count.resolve_right fun hc => by omega
      rw [hcount]
      exact iff_of_true Iff.rfl (.inl hday)
    · have hlater := hf.later _ (lt_of_le_of_ne (fightDay_mono hf.time) (Ne.symm hday))
      rw [hlater]
      constructor
      · intro hiff
        by_cases hlimit : limit ≤ 0
        · exact .inr (.inr hlimit)
        · exact .inr (.inl (not_le.mp fun hle => hlimit (hiff.mp hle)))
      · intro hcases
        constructor
        · intro hle
          rcases hcases with hc | hc | hc
          · exact absurd hc hday
          · omega
          · exact hc
        · intro hle
          change limit ≤ 0 at hle
          omega

theorem FightSet.Counts.prepare (h : set.Counts wins now) (hlo : 0 ≤ now) (hhi : now < 2 ^ 31)
    (hcfg : t.fight gid = some cfg) : (fightPrepare t now set gid limit yjdq).1.Counts wins now := by
  have hclock := toInt_clock hlo hhi
  cases hm : set.m gid with
  | none =>
    by_cases hyjdq : yjdq > 0
    · rw [fightPrepare, hm]
      simp only [if_pos hyjdq]
      exact h
    · rw [fightPrepare_new hcfg hm hyjdq]
      have hnone := h.new gid hm
      have hnew : Fight.Counts wins now gid ⟨0, 0, toInt now, 0⟩ :=
        ⟨le_refl _, le_of_eq hclock, fun day _ => hnone day, .inl (by rw [hnone]; rfl)⟩
      exact h.update hnew (fun _ _ _ => rfl) rfl (.inl rfl)
  | some f =>
    rw [fightPrepare, hm]
    simp only
    split
    · exact h
    · split
      · exact h
      · exact ⟨fun _ => by rw [hm, isSome_some], h.new, h.old⟩

/-- A prepare is refused for the count exactly after the confirms of the day, if the record it finds can be compared with
the limit. -/
theorem prepare_right_iff {c : FightCall} (h : s.set.Counts s.wins s.clock) (hle : s.clock ≤ c.now) :
    PrepareRight t s c ↔ NotStale t s c := by
  unfold PrepareRight NotStale
  refine forall_congr' fun p => forall_congr' fun r => forall_congr' fun _ => forall_congr' fun cfg =>
    forall_congr' fun hcfg => ?_
  obtain ⟨set', ret', hchecks, hnot, hlooked⟩ := @prepareChecks_ok t c.now s.set p h.cur r cfg
  have hcounts := h.looked hle hlooked
  have hcode : pveFightPrepare t c.now p s.set r =
      if ret' ≠ retSuccess then .ok (set', ret') else .ok (fightPrepare t c.now set' r.gid cfg.countPerDay r.yjdq) := by
    rw [pveFightPrepare, hcfg]
    simp only [hchecks, ok_bind]
  by_cases hret : ret' = retSuccess
  · subst hret
    rw [hcode, if_neg (not_not.mpr rfl)]
    obtain ⟨hreach, hfull⟩ := @fightPrepare_ret t c.now r.gid set' cfg cfg.countPerDay r.yjdq hcfg
    have hcount : ((∃ f ∈ set'.m r.gid, cfg.countPerDay ≤ f.todayCount) ↔
        cfg.countPerDay ≤ s.wins.count (r.gid, fightDay c.now)) ↔ Countable c.now cfg.countPerDay (set'.m r.gid) :=
      hcounts.countable_iff r.gid
    constructor
    · intro hright set hset hstarred
      obtain ⟨rfl, -⟩ := ok_pair_inj (hchecks.symm.trans hset)
      exact hcount.mp ((hfull.trans (and_iff_right hstarred)).symm.trans (hright _ _ rfl (hreach.mpr hstarred)))
    · intro hstale set ret hset hret
      obtain hpair := Except.ok.inj hset
      rw [hpair] at hreach hfull
      have hstarred := hreach.mp hret
      exact (hfull.trans (and_iff_right hstarred)).trans (hcount.mpr (hstale _ hchecks hstarred))
  · rw [hcode, if_pos hret]
    constructor
    · intro _ set hset _
      obtain ⟨-, h0⟩ := ok_pair_inj (hchecks.symm.trans hset)
      exact absurd h0 hret
    · intro _ set ret hset hor
      obtain ⟨-, rfl⟩ := ok_pair_inj hset
      exact absurd hor (not_or.mpr ⟨hret, hnot⟩)

theorem confirm_spec {affordable : Bool} {star : BitVec 32} {ret : ℤ} (h : set.Counts wins clock) (hle : clock ≤ now)
    (hlo : 0 ≤ now) (hhi : now < 2 ^ 31) (hconfirm : pveFightConfirm t now affordable set gid star = (set', ret)) :
    (ret ≠ retSuccess ∧ set'.Counts wins now) ∨
      (ret = retSuccess ∧ set'.Counts ((gid, fightDay now) :: wins) now ∧
        ∃ cfg, t.fight gid = some cfg ∧ (wins.count (gid, fightDay now) : ℤ) < cfg.countPerDay) := by
  have hlook := h.looked hle (looked_look now set gid)
  have hget : fightGet now set gid = (set.look now gid, (set.m gid).map (Fight.seen now)) := by rw [fightGet, look_self]
  unfold pveFightConfirm at hconfirm
  cases hcfg : t.fight gid with
  | none =>
    rw [hcfg] at hconfirm
    obtain ⟨rfl, rfl⟩ := Prod.mk.inj hconfirm
    exact .inl ⟨by decide, h.looked hle (looked_refl now _)⟩
  | some cfg =>
    rw [hcfg] at hconfirm
    simp only [hget] at hconfirm
    cases hm : set.m gid with
    | none =>
      rw [hm] at hconfirm
      obtain ⟨rfl, rfl⟩ := Prod.mk.inj hconfirm
      exact .inl ⟨by decide, hlook⟩
    | some f =>
      have hcount := (h.old gid f hm).seen_count hle
      simp only [hm, map_some] at hconfirm
      by_cases hfull : (f.seen now).todayCount ≥ cfg.countPerDay
      · rw [if_pos hfull] at hconfirm
        obtain ⟨rfl, rfl⟩ := Prod.mk.inj hconfirm
        exact .inl ⟨by decide, hlook⟩
      rw [if_neg hfull] at hconfirm
      by_cases hcur : set.curFightId = gid
      · have hcheck : fightCheck (set.look now gid) gid = ({ set.look now gid with curFightId := 0 }, retSuccess) := by
          rw [fightCheck, if_neg (show ¬ (set.look now gid).curFightId ≠ gid from not_not.mpr hcur), look_self, hm]
          rfl
        have hcounts : ({ set.look now gid with curFightId := 0 } : FightSet).Counts wins now :=
          ⟨fun hne => absurd rfl hne, hlook.new, hlook.old⟩
        rw [hcheck] at hconfirm
        simp only [ne_eq, not_true_eq_false, if_false] at hconfirm
        cases affordable with
        | false =>
          obtain ⟨rfl, rfl⟩ := Prod.mk.inj hconfirm
          exact .inl ⟨by decide, hcounts⟩
        | true =>
          obtain ⟨rfl, rfl⟩ := Prod.mk.inj hconfirm
          refine .inr ⟨rfl, ?_, cfg, rfl, by omega⟩
          have hupdated : Fight.Counts ((gid, fightDay now) :: wins) now gid
              ((f.seen now).updated now 1 star ((f.seen now).todayCount + 1)) := by
            have hclock := toInt_clock hlo hhi
            refine ⟨?_, le_of_eq hclock, fun day hday => ?_, .inl ?_⟩
            · change 0 ≤ (f.seen now).todayCount + 1
              omega
            · change fightDay (toInt now) < day at hday
              rw [hclock] at hday
              rw [List.count_cons_of_ne (fun he => by simp only [Prod.mk.injEq] at he; omega)]
              exact (h.old gid f hm).later day ((fightDay_mono ((h.old gid f hm).time.trans hle)).trans_lt hday)
            · change (f.seen now).todayCount + 1 = ((gid, fightDay now) :: wins).count (gid, fightDay (toInt now))
              rw [hclock, List.count_cons_self, hcount]
              push_cast
              rfl
          refine hcounts.update hupdated (fun j hj day => ?_) rfl (.inr (.inl rfl))
          exact List.count_cons_of_ne fun he => hj (Prod.mk.inj he).1.symm
      · have hcheck : fightCheck (set.look now gid) gid = (set.look now gid, retNotExist) := by
          rw [fightCheck, if_pos (show (set.look now gid).curFightId ≠ gid from hcur)]
        rw [hcheck] at hconfirm
        simp only [if_pos (by decide : retNotExist ≠ retSuccess)] at hconfirm
        obtain ⟨rfl, rfl⟩ := Prod.mk.inj hconfirm
        exact .inl ⟨by decide, hlook⟩

/-! ## Runs -/

structure Counted (t : PveTables) (s : FightDays) : Prop where
  clock : 0 ≤ s.clock
  counts : s.set.Counts s.wins s.clock
  limited : Limited t s

theorem counted_new (t : PveTables) : Counted t fightDaysNew :=
  ⟨le_refl _, ⟨fun h => absurd rfl h, fun _ _ _ => rfl, fun _ _ h => nomatch h⟩, fun _ _ _ _ => Nat.zero_le _⟩

theorem counted_step {c : FightCall} (h : Counted t s) (hc : Timely s c) : ∃ s', fightStep t s c = .ok s' ∧ Counted t s' := by
  have hlo : 0 ≤ c.now := h.clock.trans hc.1
  unfold fightStep
  split
  · rename_i p r _
    cases hcfg : t.fight r.gid with
    | none =>
      rw [pveFightPrepare, hcfg]
      exact ⟨_, rfl, hlo, h.counts.looked hc.1 (looked_refl _ _), h.limited⟩
    | some cfg =>
      obtain ⟨set', ret', hchecks, -, hlooked⟩ := @prepareChecks_ok t c.now s.set p h.counts.cur r cfg
      have hcounts := h.counts.looked hc.1 hlooked
      rw [pveFightPrepare, hcfg]
      simp only [hchecks, ok_bind]
      split
      · exact ⟨_, rfl, hlo, hcounts, h.limited⟩
      · exact ⟨_, rfl, hlo, hcounts.prepare hlo hc.2 hcfg, h.limited⟩
  · rename_i affordable gid star _
    obtain ⟨set', ret, hconfirm⟩ : ∃ set' ret, pveFightConfirm t c.now affordable s.set gid star = (set', ret) :=
      ⟨_, _, rfl⟩
    rw [hconfirm]
    rcases confirm_spec h.counts hc.1 hlo hc.2 hconfirm with ⟨hret, hcounts⟩ | ⟨hret, hcounts, cfg, hcfg, hlt⟩
    · simp only [if_neg hret]
      exact ⟨_, rfl, hlo, hcounts, h.limited⟩
    · simp only [if_pos hret]
      refine ⟨_, rfl, hlo, hcounts, fun j cfg' hcfg' day => ?_⟩
      by_cases he : (gid, fightDay c.now) = (j, day)
      · obtain ⟨rfl, rfl⟩ := Prod.mk.inj he
        obtain rfl := some_unique hcfg hcfg'
        change ((gid, fightDay c.now) :: s.wins).count (gid, fightDay c.now) ≤ _
        rw [List.count_cons_self]
        omega
      · change ((gid, fightDay c.now) :: s.wins).count (j, day) ≤ _
        rw [List.count_cons_of_ne he]
        exact h.limited j cfg' hcfg' day
  · exact ⟨_, rfl, hlo, h.counts.looked hc.1 (looked_look _ _ _), h.limited⟩
  · exact ⟨_, rfl, hlo, h.counts.looked hc.1 (looked_next _ _ _), h.limited⟩

theorem counted_preserved (t : PveTables) (s : FightDays) (c : FightCall) (s' : FightDays) (h : Counted t s)
    (hc : Timely s c) (hs : fightStep t s c = .ok s') : Counted t s' := by
  obtain ⟨s₁, hs₁, h'⟩ := counted_step h hc
  obtain rfl := ok_unique hs hs₁
  exact h'

/-- No request faults, no day has more confirms of a fight than its limit, and the prepares are refused for the count
exactly after the confirms of the day if each of them finds a record that can be compared with the limit. -/
theorem fightLimit_iff (t : PveTables) (calls : List FightCall) (htimely : Along (fightStep t) Timely fightDaysNew calls) :
    (∃ s, run (fightStep t) fightDaysNew calls = .ok s) ∧
      (Along (fightStep t) (PrepareRight t) fightDaysNew calls ∧ Throughout (fightStep t) (Limited t) fightDaysNew calls ↔
        Along (fightStep t) (NotStale t) fightDaysNew calls) := by
  have hnew := counted_new t
  obtain ⟨s, hrun, -⟩ := run_ok (fun s c (h : Counted t s) hc => counted_step h hc) calls fightDaysNew hnew htimely
  have hlimited : Throughout (fightStep t) (Limited t) fightDaysNew calls :=
    run_throughout (fun _ h => Counted.limited h) (counted_preserved t) calls _ hnew htimely
  have hright : Along (fightStep t) (PrepareRight t) fightDaysNew calls ↔
      Along (fightStep t) (NotStale t) fightDaysNew calls :=
    along_congr (counted_preserved t) (fun s c h hc => prepare_right_iff h.counts hc.1) calls _ hnew htimely
  exact ⟨⟨s, hrun⟩, (and_iff_left hlimited).trans hright⟩

def onceADay : PveTables := ⟨fun gid => if gid = 1 then some ⟨0, 0, 0, 0, 0, 0, 1, 0, 0⟩ else none, fun _ => none, fun _ => none⟩

def anyStanding (time : ℤ) : Standing := ⟨1, 0, fun _ => true, true, time⟩

def twoDays : List FightCall :=
  [⟨1000, .prepare (anyStanding 1000) ⟨1, 0, 0⟩⟩, ⟨1010, .confirm true 1 0⟩, ⟨100000, .prepare (anyStanding 100000) ⟨1, 0, 0⟩⟩]

instance (s : FightDays) (c : FightCall) : Decidable (Timely s c) := inferInstanceAs (Decidable (_ ∧ _))

theorem fightLimit_twoDays : (∃ s, run (fightStep onceADay) fightDaysNew twoDays = .ok s) ∧
    (Along (fightStep onceADay) (PrepareRight onceADay) fightDaysNew twoDays ∧
      Throughout (fightStep onceADay) (Limited onceADay) fightDaysNew twoDays ↔
        Along (fightStep onceADay) (NotStale onceADay) fightDaysNew twoDays) :=
  fightLimit_iff onceADay twoDays (by decide)

/-- The prepare of the next day is refused for the count, though nothing was confirmed on it. -/
theorem fightLimit_stale : Along (fightStep onceADay) Timely fightDaysNew twoDays ∧
    ¬ Along (fightStep onceADay) (PrepareRight onceADay) fightDaysNew twoDays := by
  refine ⟨by decide, fun h => ?_⟩
  have hlast := ((h.2 _ rfl).2 _ rfl).1
  have hrefused := hlast _ _ rfl _ rfl _ _ rfl (.inr rfl)
  exact absurd (hrefused.mp rfl) (by decide)

end CServer.Logic
