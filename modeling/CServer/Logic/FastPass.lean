import CServer.Logic.Payment

/-! # `world/logic/aL.c`: fights that are passed without being fought

`aL_pve_fight_fast_pass` counts a fight that was won before as fought `count` times more, and drops its rewards as often.
The number comes from the client as it is. The costs of the fight are taken once, whatever it is, and the daily limit is
compared with a sum that may wrap.

A `today_count` of another day is 0 once `fight_get` has looked at it. What the drops grant is not part of the inventory
here, in which only the costs are seen; the drops are counted.
-/
namespace CServer.Logic
open CServer.Lib CServer.Modules Function

/-! ## The code -/

def retFightCheckCountFail : ℤ := 33

def questEventBattle : ℤ := 3
def questEventFight : ℤ := 2
def questEventChapter : ℤ := 99

structure FightRecord where
  flag : ℤ
  star : ℤ
  todayCount : ℤ
  updateTime : ℤ

structure PveFightConfig where
  gid : ℤ
  canYjdq : Bool
  countPerDay : ℤ
  check : CostConfig
  cost : CostConfig
  battleId : ℤ

/-- `fightCost` is that of the battle that a fight belongs to, `chapterId` the chapter of a battle. -/
structure FightTables where
  fight : ℕ → Option PveFightConfig
  fightCost : ℤ → Option CostConfig
  chapterId : ℤ → Option ℤ
  packages : ConsumePackages

/-- The fights, what costs are paid from, and the calls of `pve_fight_drop` and `aL_quest_on_event` in their order. -/
structure FightState where
  fights : ℕ → Option FightRecord
  inventory : Inventory
  drops : List ℤ
  events : List (ℤ × ℤ × ℤ)

def fightDay (t : ℤ) : ℤ := (t - 1262275200).tdiv (24 * 60 * 60)

def FightRecord.seen (now : ℤ) (fight : FightRecord) : FightRecord :=
  if fightDay now ≠ fightDay fight.updateTime then { fight with todayCount := 0 } else fight

def FightState.fightGet (s : FightState) (now : ℤ) (gid : ℕ) : FightState :=
  { s with fights := update s.fights gid ((s.fights gid).map (FightRecord.seen now)) }

variable (t : FightTables)

def pveFightConsume (cfg : PveFightConfig) : MultiCost :=
  .pveFight (t.fightCost cfg.gid) cfg.check cfg.cost true

def FightState.updateCount (s : FightState) (now : ℤ) (gid : ℕ) (fight : FightRecord) (count : ℤ) : FightState :=
  { s with fights := update s.fights gid (some ⟨fight.flag, fight.star, count, now⟩) }

def passEvents (cfg : PveFightConfig) (count : ℤ) : List (ℤ × ℤ × ℤ) :=
  [(questEventFight, cfg.gid, count)] ++
    (if cfg.battleId > 0 then
      (4, 20, 1) :: match t.chapterId cfg.battleId with
        | none => []
        | some chapterId => if chapterId > 0 then [(questEventChapter, chapterId, count)] else []
    else []) ++
    if cfg.battleId ≠ 0 then [(questEventBattle, cfg.battleId, count)] else []

def fastPass (pid : ℕ) (now : ℤ) (s : FightState) (id : ℕ) (count : ℤ) : ℤ × FightState :=
  match t.fight id with
  | none => (retError, s)
  | some cfg =>
    let s := s.fightGet now id
    match s.fights id with
    | none => (retError, s)
    | some fight =>
      if fight.flag = 0 then (retError, s)
      else if cfg.canYjdq = false then (retError, s)
      else if cfg.countPerDay < toInt (fight.todayCount + count) then (retFightCheckCountFail, s)
      else
        match (pveFightConsume t cfg).pay t.packages pid s.inventory with
        | (ret, inv) =>
          let s := { s with inventory := inv }
          if ret ≠ retSuccess then (retNotEnough, s)
          else
            let s := s.updateCount now id fight (toInt (fight.todayCount + count))
            (retSuccess, { s with
              drops := s.drops ++ List.replicate count.toNat cfg.gid
              events := s.events ++ passEvents t cfg count })

/-! ## What a pass should do -/

structure SameFights (now : ℤ) (s s' : FightState) : Prop where
  fights : ∀ gid, (s'.fights gid).map (FightRecord.seen now) = (s.fights gid).map (FightRecord.seen now)
  inventory : s'.inventory = s.inventory
  drops : s'.drops = s.drops
  events : s'.events = s.events

/-- The fight has been passed `count` times: as often it was paid for, dropped and counted, within the limit of the day. -/
structure Passed (t : FightTables) (now : ℤ) (s s' : FightState) (id : ℕ) (count : ℤ) (cfg : PveFightConfig)
    (fight fight' : FightRecord) : Prop where
  config : t.fight id = some cfg
  before : s.fights id = some fight
  after : s'.fights id = some fight'
  times : 0 ≤ count
  paid : DeductsAll t.packages 0 s.inventory (List.replicate count.toNat (pveFightConsume t cfg).charged).flatten s'.inventory
  dropped : s'.drops = s.drops ++ List.replicate count.toNat cfg.gid
  counted : fight'.todayCount = (fight.seen now).todayCount + count
  within : (fight.seen now).todayCount ≤ fight'.todayCount ∧ fight'.todayCount ≤ cfg.countPerDay

/-- The pass is what was asked for, or it fails and nothing changes. -/
structure PassRight (t : FightTables) (now : ℤ) (s : FightState) (id : ℕ) (count : ℤ) (r : ℤ × FightState) : Prop where
  failed : r.1 ≠ retSuccess → SameFights now s r.2
  passed : r.1 = retSuccess → ∃ cfg fight fight', Passed t now s r.2 id count cfg fight fight'

/-- The request gets as far as paying: what is asked for is there, and the limit as it is compared allows it. -/
structure Passable (t : FightTables) (now : ℤ) (s : FightState) (id : ℕ) (count : ℤ) (cfg : PveFightConfig)
    (fight : FightRecord) : Prop where
  config : t.fight id = some cfg
  found : s.fights id = some fight
  won : fight.flag ≠ 0
  fast : cfg.canYjdq = true
  limit : toInt ((fight.seen now).todayCount + count) ≤ cfg.countPerDay
  checked : Checked s.inventory 0 (pveFightConsume t cfg).checked

/-- Costs that can not be paid one after another take nothing; where they can, the count is not negative and the sum no
more than an `int` holds, and every cost is settled for so many times by being paid once. -/
def PassSound (pid : ℕ) (now : ℤ) (s : FightState) (id : ℕ) (count : ℤ) : Prop :=
  ∀ cfg fight, Passable t now s id count cfg fight →
    (¬ Payable t.packages pid 0 s.inventory (pveFightConsume t cfg).charged →
      Untaken t.packages pid s.inventory 0 (pveFightConsume t cfg).charged) ∧
    (Payable t.packages pid 0 s.inventory (pveFightConsume t cfg).charged →
      0 ≤ count ∧ toInt ((fight.seen now).todayCount + count) = (fight.seen now).todayCount + count ∧
        ∀ c ∈ (pveFightConsume t cfg).charged, c.SettledFor t.packages pid 0 count.toNat)

/-! ## Counts of another day -/

theorem FightRecord.seen_seen (now : ℤ) (fight : FightRecord) : (fight.seen now).seen now = fight.seen now := by
  by_cases hday : fightDay now = fightDay fight.updateTime
  · have hsame : fight.seen now = fight := if_neg (not_not.mpr hday)
    rw [hsame, hsame]
  · have hzero : fight.seen now = { fight with todayCount := 0 } := if_pos hday
    rw [hzero]
    exact if_pos hday

theorem FightRecord.seen_flag (now : ℤ) (fight : FightRecord) : (fight.seen now).flag = fight.flag := by
  unfold FightRecord.seen
  split
  · rfl
  · rfl

variable {t : FightTables} {pid : ℕ} {now : ℤ} {s : FightState} {id : ℕ} {count : ℤ}

theorem fightGet_fights : (s.fightGet now id).fights id = (s.fights id).map (FightRecord.seen now) :=
  update_self ..

theorem fightGet_same : SameFights now s (s.fightGet now id) := by
  refine ⟨fun gid => ?_, rfl, rfl, rfl⟩
  by_cases hgid : gid = id
  · subst hgid
    rw [fightGet_fights, Option.map_map]
    congr 1
    funext fight
    exact fight.seen_seen now
  · rw [FightState.fightGet]
    simp only
    rw [update_of_ne hgid]

theorem SameFights.paid {s' : FightState} {inv : Inventory} (h : SameFights now s s') :
    SameFights now s { s' with inventory := inv } ↔ inv = s.inventory :=
  ⟨SameFights.inventory, fun hinv => ⟨h.fights, hinv, h.drops, h.events⟩⟩

/-! ## The costs of a fight -/

variable {cfg : PveFightConfig} {fight : FightRecord} {inv : Inventory}

theorem pveFightConsume_refused (h : ¬ Checked inv 0 (pveFightConsume t cfg).checked) :
    (pveFightConsume t cfg).pay t.packages pid inv = (retNotEnough, inv) := by
  have hnot : ¬ checkAll retNotEnough inv (pveFightConsume t cfg).uuid (pveFightConsume t cfg).checked = 0 :=
    fun h0 => h ((checkAll_iff (by decide) inv 0 _).mp h0)
  rw [MultiCost.pay, checkThenConsume, if_pos hnot]

theorem pveFightConsume_checked (h : Checked inv 0 (pveFightConsume t cfg).checked) :
    (pveFightConsume t cfg).pay t.packages pid inv =
      consumeAll t.packages pid retNotEnough 0 inv (pveFightConsume t cfg).charged := by
  have h0 : checkAll retNotEnough inv (pveFightConsume t cfg).uuid (pveFightConsume t cfg).checked = 0 :=
    (checkAll_iff (by decide) inv 0 _).mpr h
  rw [MultiCost.pay, checkThenConsume, if_neg (not_not.mpr h0)]
  rfl

theorem Checked.plain {uuid : ℕ} {cs ds : List Cost} (h : Checked inv uuid cs) (hsub : ∀ c ∈ ds, c ∈ cs) : Plain ds := by
  intro c hc
  refine (Classical.em c.Void).imp_right fun hv hpackage => ?_
  obtain hitem | ⟨hhero, -⟩ | ⟨hhero, -⟩ := checked_type (h c (hsub c hc)) hv
  · exact absurd (hitem.symm.trans hpackage) (by decide)
  · exact absurd (hhero.symm.trans hpackage) (by decide)
  · exact absurd (hhero.symm.trans hpackage) (by decide)

/-! ## The pass -/

theorem SameFights.refl : SameFights now s s := ⟨fun _ => rfl, rfl, rfl, rfl⟩

theorem fastPass_refused (h : ∀ cfg fight, ¬ Passable t now s id count cfg fight) :
    (fastPass t pid now s id count).1 ≠ retSuccess ∧ SameFights now s (fastPass t pid now s id count).2 := by
  have herror : retError ≠ retSuccess := by decide
  have hcount : retFightCheckCountFail ≠ retSuccess := by decide
  have hshort : retNotEnough ≠ retSuccess := by decide
  unfold fastPass
  cases hcfg : t.fight id with
  | none => exact ⟨herror, .refl⟩
  | some cfg =>
    simp only [fightGet_fights]
    cases hfight : s.fights id with
    | none => exact ⟨herror, fightGet_same⟩
    | some fight =>
      simp only [Option.map_some, FightRecord.seen_flag]
      by_cases hwon : fight.flag = 0
      · rw [if_pos hwon]
        exact ⟨herror, fightGet_same⟩
      rw [if_neg hwon]
      by_cases hfast : cfg.canYjdq = false
      · rw [if_pos hfast]
        exact ⟨herror, fightGet_same⟩
      rw [if_neg hfast]
      by_cases hlimit : cfg.countPerDay < toInt ((fight.seen now).todayCount + count)
      · rw [if_pos hlimit]
        exact ⟨hcount, fightGet_same⟩
      rw [if_neg hlimit]
      have hchecked : ¬ Checked s.inventory 0 (pveFightConsume t cfg).checked := fun hc =>
        h cfg fight ⟨hcfg, hfight, hwon, Bool.eq_true_of_not_eq_false hfast, Int.not_lt.mp hlimit, hc⟩
      rw [show (s.fightGet now id).inventory = s.inventory from rfl, pveFightConsume_refused hchecked]
      simp only
      rw [if_pos hshort]
      exact ⟨hshort, fightGet_same.paid.mpr rfl⟩

theorem Passable.run (h : Passable t now s id count cfg fight) : fastPass t pid now s id count =
    match consumeAll t.packages pid retNotEnough 0 s.inventory (pveFightConsume t cfg).charged with
    | (ret, inv) =>
      if ret ≠ retSuccess then (retNotEnough, { s.fightGet now id with inventory := inv })
      else (retSuccess, { ({ s.fightGet now id with inventory := inv } : FightState).updateCount now id (fight.seen now)
          (toInt ((fight.seen now).todayCount + count)) with
        drops := s.drops ++ List.replicate count.toNat cfg.gid
        events := s.events ++ passEvents t cfg count }) := by
  rw [fastPass, h.config]
  simp only [fightGet_fights, h.found, Option.map_some, FightRecord.seen_flag]
  have hfast : ¬ cfg.canYjdq = false := by
    rw [h.fast]
    decide
  rw [if_neg h.won, if_neg hfast, if_neg (Int.not_lt.mpr h.limit),
    show (s.fightGet now id).inventory = s.inventory from rfl, pveFightConsume_checked h.checked]
  rfl

theorem Passable.unpaid (h : Passable t now s id count cfg fight)
    (hpay : ¬ Payable t.packages pid 0 s.inventory (pveFightConsume t cfg).charged) :
    (fastPass t pid now s id count).1 ≠ retSuccess ∧ (SameFights now s (fastPass t pid now s id count).2 ↔
      Untaken t.packages pid s.inventory 0 (pveFightConsume t cfg).charged) := by
  have hshort : retNotEnough ≠ retSuccess := by decide
  have hret := (@consumeAll_success _ _ _ _ retNotEnough _ hshort).not.mpr hpay
  rw [h.run, ← @consumeAll_kept_iff t.packages pid s.inventory 0 retNotEnough]
  generalize consumeAll t.packages pid retNotEnough 0 s.inventory (pveFightConsume t cfg).charged = r at hret
  obtain ⟨ret, inv⟩ := r
  simp only at hret ⊢
  rw [if_pos hret]
  exact ⟨hshort, fightGet_same.paid⟩

theorem Passable.paid (h : Passable t now s id count cfg fight)
    (hpay : Payable t.packages pid 0 s.inventory (pveFightConsume t cfg).charged) :
    (fastPass t pid now s id count).1 = retSuccess ∧
      ((∃ cfg fight fight', Passed t now s (fastPass t pid now s id count).2 id count cfg fight fight') ↔
        0 ≤ count ∧ toInt ((fight.seen now).todayCount + count) = (fight.seen now).todayCount + count ∧
          ∀ c ∈ (pveFightConsume t cfg).charged, c.SettledFor t.packages pid 0 count.toNat) := by
  have hret := (@consumeAll_success _ _ _ _ retNotEnough _ (by decide)).mpr hpay
  have hplain := h.checked.plain (pveFightConsume t cfg).charged_checked
  rw [h.run, ← @consumeAll_times_iff _ _ _ _ retNotEnough _ count.toNat hpay hplain]
  generalize consumeAll t.packages pid retNotEnough 0 s.inventory (pveFightConsume t cfg).charged = r at hret
  obtain ⟨ret, inv⟩ := r
  simp only at hret ⊢
  rw [if_neg (not_not.mpr hret)]
  refine ⟨rfl, ?_, ?_⟩
  · intro hpassed
    obtain ⟨cfg', fight', after, hp⟩ := hpassed
    cases (hp.config.symm.trans h.config)
    cases (hp.before.symm.trans h.found)
    have hafter := hp.after
    simp only [FightState.updateCount, update_self, Option.some.injEq] at hafter
    have hcounted := hp.counted
    rw [← hafter] at hcounted
    exact ⟨hp.times, hcounted, hp.paid⟩
  · intro hsound
    obtain ⟨htimes, hwrap, hsettled⟩ := hsound
    refine ⟨cfg, fight, _, h.config, h.found, update_self .., htimes, hsettled, rfl, hwrap, ?_, h.limit⟩
    simp only
    omega

/-- A fast pass fails and changes nothing, or is paid for, dropped and counted as often as was asked for within the limit of
the day, exactly if its costs take nothing where not all of them can be paid, and where they can, the count is not negative
and does not wrap, and being paid once settles each cost for so many times. -/
theorem fastPass_iff (pid : ℕ) (now : ℤ) (s : FightState) (id : ℕ) (count : ℤ) :
    PassRight t now s id count (fastPass t pid now s id count) ↔ PassSound t pid now s id count := by
  constructor
  · intro hright cfg fight h
    constructor
    · intro hpay
      obtain ⟨hret, hsame⟩ := h.unpaid hpay
      exact hsame.mp (hright.failed hret)
    · intro hpay
      obtain ⟨hret, hpassed⟩ := h.paid hpay
      exact hpassed.mp (hright.passed hret)
  · intro hsound
    by_cases hany : ∃ cfg fight, Passable t now s id count cfg fight
    · obtain ⟨cfg, fight, h⟩ := hany
      obtain ⟨hunpaid, hpaid⟩ := hsound cfg fight h
      by_cases hpay : Payable t.packages pid 0 s.inventory (pveFightConsume t cfg).charged
      · obtain ⟨hret, hpassed⟩ := h.paid hpay
        exact ⟨fun hne => absurd hret hne, fun _ => hpassed.mpr (hpaid hpay)⟩
      · obtain ⟨hret, hsame⟩ := h.unpaid hpay
        exact ⟨fun _ => hsame.mpr (hunpaid hpay), fun heq => absurd heq hret⟩
    · obtain ⟨hret, hsame⟩ := @fastPass_refused t pid now s id count fun cfg fight h => hany ⟨cfg, fight, h⟩
      exact ⟨fun _ => hsame, fun heq => absurd heq hret⟩

def tenCoinTables : FightTables where
  fight := fun _ => some ⟨7, true, 5, ⟨0, 0, 0⟩, ⟨rewardTypeItem, coinId, 10⟩, 0⟩
  fightCost := fun _ => none
  chapterId := fun _ => none
  packages := fun _ => none

def thirtyCoins : FightState where
  fights := fun _ => some ⟨1, 1, 0, 1262275200⟩
  inventory := ⟨fun _ => some 30, fun _ _ => none, fun _ => 0⟩
  drops := []
  events := []

/-- Two passes are paid for once. -/
theorem fastPass_takes_ten :
    (fastPass tenCoinTables 100000 1262275200 thirtyCoins 7 2).1 = retSuccess ∧
      (fastPass tenCoinTables 100000 1262275200 thirtyCoins 7 2).2.inventory.item 90002 = some 20 ∧
      (fastPass tenCoinTables 100000 1262275200 thirtyCoins 7 2).2.drops = [7, 7] ∧
      ¬ PassRight tenCoinTables 1262275200 thirtyCoins 7 2 (fastPass tenCoinTables 100000 1262275200 thirtyCoins 7 2) := by
  have hret : (fastPass tenCoinTables 100000 1262275200 thirtyCoins 7 2).1 = retSuccess := by decide +kernel
  refine ⟨hret, by decide +kernel, by decide +kernel, fun hright => ?_⟩
  have hpassed := hright.passed hret
  have h : Passable tenCoinTables 1262275200 thirtyCoins 7 2 _ _ :=
    ⟨rfl, rfl, by decide, rfl, by decide, by
      rw [← checkAll_iff (show retNotEnough ≠ 0 by decide)]
      decide +kernel⟩
  have hpay : Payable (fun _ => none) 100000 0 thirtyCoins.inventory [⟨rewardTypeItem, 90002, 10, by decide⟩] :=
    ⟨by decide +kernel, trivial⟩
  obtain ⟨-, -, hsettled⟩ := (h.paid hpay).2.mp hpassed
  obtain hnothing | ⟨h0, -⟩ | ⟨h1, -⟩ := hsettled ⟨rewardTypeItem, 90002, 10, by decide⟩ List.mem_cons_self
  · exact absurd (hnothing.free (.inr (by decide))) (show ¬ ((41 = 0 ∨ 90002 = 0) ∨ 10 = 0) by decide)
  · exact absurd h0 (by decide)
  · exact absurd h1 (by decide)

end CServer.Logic
