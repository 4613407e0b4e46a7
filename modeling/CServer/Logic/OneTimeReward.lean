import CServer.Logic.EquipInvest

/-! # `world/modules/reward_flag.c` and `world/logic/aL.c`: rewards that are given once

Fifty flags are the bits of one record, which is made when the first of them is set. `aL_recv_one_time_reward` sets the
flag of an id after its condition has been met and its cost has been taken, and only then sends the reward.
-/
namespace CServer.Logic
open CServer.Lib CServer.Modules List Function

/-! ## The code -/

def retDepend : ℤ := 7
def retAlreadyAt : ℤ := 13

def reasonOneTimeRewardStar : ℤ := 1008

structure RewardFlag where
  pid : ℕ
  id : ℕ
  value : BitVec 64

/-- The records by their ids, and the ids in the order of the list. -/
structure RewardFlagSet where
  m : ℕ → Option RewardFlag
  list : List ℕ

def rewardFlagNew : RewardFlagSet := ⟨fun _ => none, []⟩

def flagMask (id : ℕ) : BitVec 64 := 1#64 <<< (id % 50)

def rewardFlagGet (set : RewardFlagSet) (id : ℕ) : ℤ :=
  match set.m (id / 50) with
  | none => 0
  | some flag => if 0 < flag.value &&& flagMask id then 1 else 0

/-- `stored` says whether `DATA_RewardFlag_new` succeeds. -/
def rewardFlagSet (pid : ℕ) (stored : Bool) (set : RewardFlagSet) (id : ℕ) : ℤ × RewardFlagSet :=
  match set.m (id / 50) with
  | none =>
    if stored then
      (0, { set with
        m := update set.m (id / 50) (some ⟨pid, id / 50, flagMask id⟩)
        list := set.list ++ [id / 50] })
    else (-1, set)
  | some flag =>
    if flag.value &&& flagMask id ≠ 0 then (0, set)
    else (0, { set with
      m := update set.m (id / 50) (some { flag with value := flag.value ||| flagMask id }) })

structure OneTimeRewardConfig where
  condition : CostConfig
  consume : CostConfig
  rewards : List CostConfig

/-- `chapter` lists the battles of a chapter and `battle` the fights of a battle. -/
structure OneTimeTables where
  reward : ℕ → Option OneTimeRewardConfig
  chapter : ℤ → Option (List ℤ)
  battle : ℤ → Option (List ℤ)
  packages : ConsumePackages

def starCount (star : BitVec 32) : ℕ :=
  (List.range 15).countP fun i => star &&& 1#32 <<< (i * 2) ≠ 0

/-- `battle_star_count`; `star` is what `fight_get` finds. -/
def battleStarCount (star : ℤ → Option (BitVec 32)) (fights : List ℤ) : ℕ :=
  (fights.map fun gid => ((star gid).map starCount).getD 0).sum

variable (t : OneTimeTables)

def chapterStarCount (star : ℤ → Option (BitVec 32)) (battles : List ℤ) : ℕ :=
  (battles.map fun id => ((t.battle id).map (battleStarCount star)).getD 0).sum

structure SentReward where
  id : ℕ
  reason : ℤ
  rewards : List CostConfig

/-- The flags and the inventory of a player, the ids for which `reward_flag_set` has answered 0, and what has been sent. -/
structure OneTimeState where
  flags : RewardFlagSet
  inventory : Inventory
  set : List ℕ
  sent : List SentReward

/-- `reward_flag_set`, and what `aL_recv_one_time_reward` answers for it. -/
def OneTimeState.setFlag (s : OneTimeState) (pid : ℕ) (stored : Bool) (id : ℕ) : ℤ × OneTimeState :=
  match rewardFlagSet pid stored s.flags id with
  | (ret, flags) =>
    if ret ≠ 0 then (retError, { s with flags := flags })
    else (retSuccess, { s with flags := flags, set := s.set ++ [id] })

/-- The condition of a reward by stars, `count` being how many there are. -/
def starCondition (condition : CostConfig) (count : Option ℕ) : ℤ :=
  match count with
  | none => retError
  | some count => if (count : ℤ) < condition.value then retDepend else retSuccess

def OneTimeState.receive (pid : ℕ) (stored : Bool) (s : OneTimeState) (id : ℕ)
    (cfg : OneTimeRewardConfig) : ℤ × OneTimeState :=
  match (if cfg.consume.type > 0 ∧ cfg.consume.id > 0 then
      checkAndConsume t.packages pid s.inventory 0 cfg.consume.pass else (retSuccess, s.inventory)) with
  | (ret, inv) =>
    let s := { s with inventory := inv }
    if ret ≠ 0 then (retNotEnough, s)
    else
      match s.setFlag pid stored id with
      | (ret, s) =>
        if ret ≠ retSuccess then (ret, s)
        else (retSuccess, { s with sent := s.sent ++ [⟨id, reasonOneTimeRewardStar, cfg.rewards⟩] })

def recvOneTimeReward (pid : ℕ) (star : ℤ → Option (BitVec 32)) (stored : Bool) (s : OneTimeState)
    (id : ℕ) : ℤ × OneTimeState :=
  match t.reward id with
  | none => s.setFlag pid stored id
  | some cfg =>
    if rewardFlagGet s.flags id ≠ 0 then (retAlreadyAt, s)
    else if cfg.condition.type = 1 then
      let ret := starCondition cfg.condition ((t.chapter cfg.condition.id).map (chapterStarCount t star))
      if ret ≠ retSuccess then (ret, s) else s.receive t pid stored id cfg
    else if cfg.condition.type = 2 then
      let ret := starCondition cfg.condition ((t.battle cfg.condition.id).map (battleStarCount star))
      if ret ≠ retSuccess then (ret, s) else s.receive t pid stored id cfg
    else if cfg.condition.type = 4 then s.setFlag pid stored id
    else (retError, s)

/-- A request for a reward, with the stars of that time, or anything else that happens to the inventory. -/
inductive OneTimeEvent
  | recv (star : ℤ → Option (BitVec 32)) (stored : Bool) (id : ℕ)
  | elsewhere (inventory : Inventory)

def OneTimeState.step (pid : ℕ) (s : OneTimeState) : OneTimeEvent → OneTimeState
  | .recv star stored id => (recvOneTimeReward t pid star stored s id).2
  | .elsewhere inventory => { s with inventory := inventory }

/-- What a session begins with: the flags as they were loaded. -/
def OneTimeState.start (flags : RewardFlagSet) (inventory : Inventory) : OneTimeState := ⟨flags, inventory, [], []⟩

/-! ## Flags -/

theorem getLsbD_flagMask (id i : ℕ) : (flagMask id).getLsbD i = decide (i = id % 50) := by
  rw [flagMask, BitVec.getLsbD_shiftLeft]
  have hlt : id % 50 < 50 := Nat.mod_lt _ (by omega)
  by_cases hi : i = id % 50
  · subst hi
    simp [show id % 50 < 64 by omega]
  · simp only [hi, decide_false, BitVec.getLsbD_one]
    grind

theorem and_flagMask (value : BitVec 64) (id : ℕ) : value &&& flagMask id ≠ 0 ↔ value.getLsbD (id % 50) = true := by
  constructor
  · intro hne
    by_contra hbit
    refine hne (BitVec.eq_of_getLsbD_eq fun i _ => ?_)
    rw [BitVec.getLsbD_and, getLsbD_flagMask, show (0 : BitVec 64) = 0#64 from rfl, BitVec.getLsbD_zero]
    by_cases hi : i = id % 50
    · subst hi
      simpa using hbit
    · simp [hi]
  · intro hbit h0
    have hand : (value &&& flagMask id).getLsbD (id % 50) = true := by
      rw [BitVec.getLsbD_and, getLsbD_flagMask, hbit]
      simp
    rw [h0] at hand
    simp at hand

theorem rewardFlagGet_iff (set : RewardFlagSet) (id : ℕ) : rewardFlagGet set id ≠ 0 ↔
    ∃ flag, set.m (id / 50) = some flag ∧ flag.value.getLsbD (id % 50) = true := by
  rw [rewardFlagGet]
  cases hm : set.m (id / 50) with
  | none => simp
  | some flag =>
    have hpos : 0 < flag.value &&& flagMask id ↔ flag.value &&& flagMask id ≠ 0 := by
      rw [BitVec.lt_def, Ne, ← BitVec.toNat_inj]
      exact Nat.pos_iff_ne_zero
    simp only [Option.some.injEq, exists_eq_left']
    rw [← and_flagMask, ← hpos]
    split <;> simp_all

section Set
variable {pid : ℕ} {stored : Bool} {set set' : RewardFlagSet} {id id' : ℕ}

theorem rewardFlagGet_written {flag : RewardFlag} (hm : set'.m = update set.m (id / 50) (some flag))
    (hbits : ∀ i, flag.value.getLsbD i = true ↔
      (∃ old, set.m (id / 50) = some old ∧ old.value.getLsbD i = true) ∨ i = id % 50) :
    rewardFlagGet set' id' ≠ 0 ↔ rewardFlagGet set id' ≠ 0 ∨ id' = id := by
  rw [rewardFlagGet_iff, rewardFlagGet_iff, hm]
  by_cases hdiv : id' / 50 = id / 50
  · have hsame : id' % 50 = id % 50 ↔ id' = id := by omega
    rw [hdiv, update_self, ← hsame, ← hbits]
    simp
  · have hne : id' ≠ id := fun h => hdiv (h ▸ rfl)
    rw [update_of_ne hdiv]
    simp [hne]

theorem rewardFlagSet_get (h : rewardFlagSet pid stored set id = (0, set')) :
    rewardFlagGet set' id' ≠ 0 ↔ rewardFlagGet set id' ≠ 0 ∨ id' = id := by
  unfold rewardFlagSet at h
  cases hm : set.m (id / 50) with
  | none =>
    simp only [hm] at h
    split at h
    · obtain ⟨-, rfl⟩ := Prod.mk.inj h
      exact rewardFlagGet_written rfl fun i => by simp [hm, getLsbD_flagMask]
    · simp at h
  | some flag =>
    simp only [hm] at h
    split at h
    · rename_i hbit
      obtain ⟨-, rfl⟩ := Prod.mk.inj h
      refine ⟨Or.inl, ?_⟩
      rintro (hold | rfl)
      · exact hold
      · exact (rewardFlagGet_iff _ _).mpr ⟨flag, hm, (and_flagMask _ _).mp hbit⟩
    · obtain ⟨-, rfl⟩ := Prod.mk.inj h
      exact rewardFlagGet_written rfl fun i => by simp [hm, BitVec.getLsbD_or, getLsbD_flagMask]

theorem rewardFlagSet_failed (h : (rewardFlagSet pid stored set id).1 ≠ 0) : (rewardFlagSet pid stored set id).2 = set := by
  unfold rewardFlagSet at *
  split at h
  · split at h <;> simp_all
  · split at h <;> simp at h

theorem rewardFlagSet_other (hne : id' ≠ id) :
    rewardFlagGet (rewardFlagSet pid stored set id).2 id' ≠ 0 ↔ rewardFlagGet set id' ≠ 0 := by
  by_cases hret : (rewardFlagSet pid stored set id).1 = 0
  · have h : rewardFlagSet pid stored set id = (0, (rewardFlagSet pid stored set id).2) := Prod.ext hret rfl
    rw [rewardFlagSet_get h]
    simp [hne]
  · rw [rewardFlagSet_failed hret]

end Set

/-! ## Requests -/

inductive Received (s : OneTimeState) (id : ℕ) : OneTimeState → Prop
  | kept (s' : OneTimeState) (hflags : s'.flags = s.flags) (hset : s'.set = s.set) (hsent : s'.sent = s.sent) : Received s id s'
  | flagged (s' : OneTimeState) (pid : ℕ) (stored : Bool) (hflags : rewardFlagSet pid stored s.flags id = (0, s'.flags))
      (hset : s'.set = s.set ++ [id]) (hsent : s'.sent = s.sent) : Received s id s'
  | sent (s' : OneTimeState) (pid : ℕ) (stored : Bool) (reason : ℤ) (rewards : List CostConfig)
      (hunset : rewardFlagGet s.flags id = 0) (hflags : rewardFlagSet pid stored s.flags id = (0, s'.flags))
      (hset : s'.set = s.set ++ [id]) (hsent : s'.sent = s.sent ++ [⟨id, reason, rewards⟩]) : Received s id s'

section Recv
variable {t : OneTimeTables} {pid : ℕ} {star : ℤ → Option (BitVec 32)} {stored : Bool} {s : OneTimeState} {id : ℕ}
  {cfg : OneTimeRewardConfig}

theorem setFlag_cases : (∃ flags, rewardFlagSet pid stored s.flags id = (0, flags) ∧
      s.setFlag pid stored id = (retSuccess, { s with flags := flags, set := s.set ++ [id] })) ∨
    (s.setFlag pid stored id = (retError, s)) := by
  rw [OneTimeState.setFlag]
  by_cases hret : (rewardFlagSet pid stored s.flags id).1 = 0
  · exact .inl ⟨_, Prod.ext hret rfl, if_neg (not_not.mpr hret)⟩
  · exact .inr (by simp [hret, rewardFlagSet_failed hret])

theorem setFlag_received : Received s id (s.setFlag pid stored id).2 := by
  obtain ⟨flags, hflags, hs⟩ | hs := @setFlag_cases pid stored s id
  · rw [hs]
    exact .flagged _ pid stored hflags rfl rfl
  · rw [hs]
    exact .kept _ rfl rfl rfl

theorem receive_received (hunset : rewardFlagGet s.flags id = 0) : Received s id (s.receive t pid stored id cfg).2 := by
  rw [OneTimeState.receive]
  split
  rename_i ret inv _
  dsimp only
  split
  · exact .kept _ rfl rfl rfl
  · obtain ⟨flags, hflags, hs⟩ | hs := @setFlag_cases pid stored { s with inventory := inv } id
    · rw [hs]
      exact .sent _ pid stored _ _ hunset hflags rfl rfl
    · have hret : retError ≠ retSuccess := by decide
      simp only [hs, hret, ne_eq, not_false_eq_true, if_true]
      exact .kept _ rfl rfl rfl

theorem recvOneTimeReward_received : Received s id (recvOneTimeReward t pid star stored s id).2 := by
  have hkept : Received s id s := .kept _ rfl rfl rfl
  rw [recvOneTimeReward]
  cases t.reward id with
  | none => exact setFlag_received
  | some cfg =>
    dsimp only
    by_cases hflag : rewardFlagGet s.flags id = 0
    · rw [if_neg (not_not.mpr hflag)]
      have hgive : ∀ ret : ℤ, Received s id (if ret ≠ retSuccess then (ret, s) else s.receive t pid stored id cfg).2 := by
        intro ret
        split
        · exact hkept
        · exact receive_received hflag
      by_cases h1 : cfg.condition.type = 1
      · rw [if_pos h1]
        exact hgive _
      · rw [if_neg h1]
        by_cases h2 : cfg.condition.type = 2
        · rw [if_pos h2]
          exact hgive _
        · rw [if_neg h2]
          split
          · exact setFlag_received
          · exact hkept
    · rw [if_pos hflag]
      exact hkept

end Recv

/-! ## Runs -/

/-- The flags are those that were loaded and those that have been set since, and every reward has been sent for an id
that had no flag, no two of them for the same. -/
structure GivenOnce (flags : RewardFlagSet) (s : OneTimeState) : Prop where
  flag : ∀ id, rewardFlagGet s.flags id ≠ 0 ↔ rewardFlagGet flags id ≠ 0 ∨ id ∈ s.set
  owed : ∀ r ∈ s.sent, r.id ∈ s.set ∧ rewardFlagGet flags r.id = 0
  once : (s.sent.map SentReward.id).Nodup

theorem GivenOnce.received {flags : RewardFlagSet} {s s' : OneTimeState} {id : ℕ} (hs : GivenOnce flags s)
    (h : Received s id s') : GivenOnce flags s' := by
  -- the flags after setting one more
  have hflag : ∀ (pid : ℕ) (stored : Bool), rewardFlagSet pid stored s.flags id = (0, s'.flags) → s'.set = s.set ++ [id] →
      ∀ i, rewardFlagGet s'.flags i ≠ 0 ↔ rewardFlagGet flags i ≠ 0 ∨ i ∈ s'.set := by
    intro pid stored hflags hset i
    rw [rewardFlagSet_get hflags, hs.flag, hset, mem_append, mem_singleton, or_assoc]
  cases h with
  | kept hflags hset hsent =>
    refine ⟨?_, ?_, ?_⟩
    · rw [hflags, hset]
      exact hs.flag
    · rw [hsent, hset]
      exact hs.owed
    · rw [hsent]
      exact hs.once
  | flagged pid stored hflags hset hsent =>
    refine ⟨hflag pid stored hflags hset, fun r hr => ?_, by rw [hsent]; exact hs.once⟩
    obtain ⟨hmem, hunset⟩ := hs.owed r (hsent ▸ hr)
    exact ⟨hset ▸ mem_append_left _ hmem, hunset⟩
  | sent pid stored reason rewards hunset hflags hset hsent =>
    -- the flag was not set, so nothing has been sent for this id
    have hnew : rewardFlagGet flags id = 0 ∧ id ∉ s.set := by
      have hnot := mt (hs.flag id).mpr (not_not.mpr hunset)
      rw [not_or, not_not] at hnot
      exact hnot
    refine ⟨hflag pid stored hflags hset, fun r hr => ?_, ?_⟩
    · rw [hsent, mem_append, mem_singleton] at hr
      rw [hset]
      obtain hr | rfl := hr
      · exact ⟨mem_append_left _ (hs.owed r hr).1, (hs.owed r hr).2⟩
      · exact ⟨mem_append_right _ (mem_singleton_self _), hnew.1⟩
    · rw [hsent, map_append, nodup_append]
      refine ⟨hs.once, nodup_singleton _, ?_⟩
      intro i hi j hj heq
      obtain ⟨r, hr, rfl⟩ := mem_map.mp hi
      simp only [map_cons, map_nil, mem_singleton] at hj
      exact hnew.2 (hj ▸ heq ▸ (hs.owed r hr).1)

/-- Flags over a run of requests: they are set exactly if they were loaded so or `reward_flag_set` has succeeded since,
setting one changes no other, a new player has none, and no reward is sent twice or for a flag that was loaded. -/
theorem oneTimeReward_once (pid : ℕ) (flags : RewardFlagSet) (inventory : Inventory)
    (events : List OneTimeEvent) :
    GivenOnce flags (events.foldl (OneTimeState.step t pid) (.start flags inventory)) ∧
      (∀ id, rewardFlagGet rewardFlagNew id = 0) ∧
      ∀ (set : RewardFlagSet) (stored : Bool) (id id' : ℕ), id' ≠ id →
        rewardFlagGet (rewardFlagSet pid stored set id).2 id' = rewardFlagGet set id' := by
  refine ⟨?_, fun id => rfl, ?_⟩
  · induction events using List.reverseRecOn with
    | nil => exact ⟨by simp [OneTimeState.start], by simp [OneTimeState.start], by simp [OneTimeState.start]⟩
    | append_singleton events e ih =>
      rw [foldl_append, foldl_cons, foldl_nil]
      cases e with
      | recv star stored id => exact ih.received recvOneTimeReward_received
      | elsewhere inventory => exact ⟨ih.flag, ih.owed, ih.once⟩
  · intro set stored id id' hne
    have hother := @rewardFlagSet_other pid stored set id id' hne
    have hbit : ∀ set, rewardFlagGet set id' = 0 ∨ rewardFlagGet set id' = 1 := by
      intro set
      rw [rewardFlagGet]
      split
      · exact .inl rfl
      · split <;> simp
    grind

end CServer.Logic
