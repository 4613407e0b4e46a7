import CServer.World.Player

/-! # Runs of the player manager

Every sequence of the calls the server makes, with any ids, connections and answers of the database.
The two maps stay a partition of the loaded players whatever is called. One slip shows:
`agPM_SetOffline` takes a 32-bit id, so that a player whose id does not fit stays online when it is
told to go offline.
-/
namespace CServer.World
open CServer.Lib

def PlayerManager.UnloadOk (s : PlayerManager) : PlayerAct → Prop
  | .unload player => s.alive player = true
  | _ => True

def PlayerManager.ClockOk (s : PlayerManager) : PlayerAct → Prop
  | .time now => s.current ≤ now
  | _ => True

variable {s : PlayerManager} {act zs : List ℕ}

theorem PlayerManager.Ok.zombies_length (h : s.Ok act zs) : zs.length < s.fresh + 1 := by
  have hsub : zs.Subperm (List.range s.fresh) := h.cache.list.nodup.subperm fun p hp =>
    List.mem_range.mpr (h.maps.known p ((h.zombie p).mp hp).1)
  have hle := hsub.length_le
  rw [List.length_range] at hle
  exact Nat.lt_succ_of_le hle

theorem PlayerManager.Ok.time (h : s.Ok act zs) (now : ℕ) :
    ({ s with current := now } : PlayerManager).Ok act zs ∧
      (s.Timely zs → s.current ≤ now → ({ s with current := now } : PlayerManager).Timely zs) := by
  have hm := h.maps
  refine ⟨⟨⟨h.active.list, h.active.live⟩, ⟨h.cache.list, h.cache.table⟩, ⟨hm.known, hm.unique, hm.online, hm.offline⟩,
    h.zombie⟩, fun ht hle => ⟨ht.sorted, fun p hp => ⟨?_, (ht.recent p hp).2⟩, ht.once, ht.gone⟩⟩
  exact Nat.le_trans (ht.recent p hp).1 hle

theorem PlayerManager.Ok.playerSetConn (h : s.Ok act zs) (id : UInt64) (conn : UInt32) (load : PlayerLoad) :
    ∃ s' act' zs', s.playerSetConn id conn load = .ok s' ∧ s'.Ok act' zs' ∧ (s.Timely zs → s'.Timely zs') := by
  by_cases hc : conn = invalidId
  · obtain ⟨s', act', zs', hset, hok, htime, -⟩ := h.agPMSetOffline id.toUInt32
    exact ⟨s', act', zs', by rw [PlayerManager.playerSetConn, if_pos hc]; exact hset, hok, htime⟩
  · obtain ⟨s₁, r, act₁, zs₁, hget, hok₁, htime₁, hsome, -⟩ := h.agPMGet id load
    cases r with
    | none =>
      refine ⟨s₁, act₁, zs₁, ?_, hok₁, htime₁⟩
      simp only [PlayerManager.playerSetConn, hc, if_false, PlayerManager.playerGet, hget, ok_bind]
    | some p =>
      obtain ⟨s', hon, hok', htime'⟩ := hok₁.agPMSetOnline (hsome p rfl).1 hc
      refine ⟨s', act₁, _, ?_, hok', fun ht => htime' (htime₁ ht)⟩
      simp only [PlayerManager.playerSetConn, hc, if_false, PlayerManager.playerGet, hget, ok_bind, hon]

theorem PlayerManager.Ok.step (h : s.Ok act zs) {a : PlayerAct} (hok : s.UnloadOk a) :
    ∃ s' act' zs', s.step a = .ok s' ∧ s'.Ok act' zs' ∧ (s.Timely zs → s.ClockOk a → s'.Timely zs') := by
  cases a with
  | time now =>
    obtain ⟨hok', htime⟩ := h.time now
    exact ⟨_, act, zs, rfl, hok', htime⟩
  | get id load =>
    obtain ⟨s', r, act', zs', hget, hok', htime, -⟩ := h.agPMGet id load
    refine ⟨s', act', zs', ?_, hok', fun ht _ => htime ht⟩
    simp only [PlayerManager.step, PlayerManager.playerGet, hget, ok_bind]
  | create id load modules =>
    obtain ⟨s₁, r, act₁, zs₁, hget, hok₁, htime₁, -, hnone⟩ := h.agPMGet id load
    cases r with
    | some p =>
      refine ⟨s₁, act₁, zs₁, ?_, hok₁, fun ht _ => htime₁ ht⟩
      simp only [PlayerManager.step, PlayerManager.playerCreate, hget, ok_bind]
    | none =>
      obtain ⟨s', r', act', zs', hcr, hok', htime'⟩ := hok₁.agPMCreate modules (hnone rfl)
      refine ⟨s', act', zs', ?_, hok', fun ht _ => htime' (htime₁ ht)⟩
      simp only [PlayerManager.step, PlayerManager.playerCreate, hget, ok_bind, hcr]
  | setConn id conn load =>
    obtain ⟨s', act', zs', hset, hok', htime⟩ := h.playerSetConn id conn load
    exact ⟨s', act', zs', hset, hok', fun ht _ => htime ht⟩
  | getOnline id =>
    obtain ⟨s', act', hget, hok', hsame⟩ := h.agPMGetOnline id
    refine ⟨s', act', zs, ?_, hok', fun ht _ => ht.relink hsame⟩
    simp only [PlayerManager.step, PlayerManager.playerGetOnline, hget, ok_bind]
  | getConn id =>
    obtain ⟨s', act', hget, hok', hsame⟩ := h.agPMGetOnline id
    refine ⟨s', act', zs, ?_, hok', fun ht _ => ht.relink hsame⟩
    simp only [PlayerManager.step, PlayerManager.playerGetConn, hget, ok_bind]
    cases s.online id with
    | none => rfl
    | some p => rfl
  | unload player =>
    obtain ⟨s', hrel, hok', htime⟩ := h.agPMRelease hok
    exact ⟨s', _, _, hrel, hok', fun ht _ => htime ht⟩
  | unloadZombies =>
    obtain ⟨s', act', zs', ps, hloop, hok', -, -, htime⟩ := h.unload_zombies zs h.zombies_length
    exact ⟨s', act', zs', hloop, hok', fun ht _ => (htime ht).1⟩

/-! ## Online and offline -/

/-- Every loaded player is in exactly one of the two maps, under its own id, and in `player_online` when
it has a connection. -/
structure PlayerManager.Partitioned (s : PlayerManager) : Prop where
  one : ∀ p, s.alive p = true → Xor (∃ k, s.online k = some p) (∃ k, s.offline k = some p)
  conn : ∀ p, s.alive p = true → ((∃ k, s.online k = some p) ↔ s.conn p ≠ invalidId)
  own : ∀ k p, s.online k = some p ∨ s.offline k = some p → s.alive p = true ∧ s.id p = k

/-- After `player_set_conn(pid, INVALID_ID)` the player is not found online and has no connection. -/
def PlayerManager.LogsOut (s : PlayerManager) (pid : UInt64) (load : PlayerLoad) : Prop :=
  ∃ s', s.playerSetConn pid invalidId load = .ok s' ∧ (∃ s₁, s'.playerGetOnline pid = .ok (s₁, none)) ∧
    ∃ s₂, s'.playerGetConn pid = .ok (s₂, invalidId)

theorem PlayerManager.Ok.in_online (h : s.Ok act zs) (p : ℕ) :
    (∃ k, s.online k = some p) ↔ s.alive p = true ∧ s.conn p ≠ invalidId := by
  constructor
  · rintro ⟨k, hk⟩
    exact (h.maps.online.mem hk).1
  · intro hp
    exact ⟨s.id p, (h.maps.online _ p).mpr ⟨hp, rfl⟩⟩

theorem PlayerManager.Ok.in_offline (h : s.Ok act zs) (p : ℕ) :
    (∃ k, s.offline k = some p) ↔ s.alive p = true ∧ s.conn p = invalidId := by
  constructor
  · rintro ⟨k, hk⟩
    exact (h.maps.offline.mem hk).1
  · intro hp
    exact ⟨s.id p, (h.maps.offline _ p).mpr ⟨hp, rfl⟩⟩

theorem PlayerManager.Ok.partitioned (h : s.Ok act zs) : s.Partitioned := by
  refine ⟨fun p hp => ?_, fun p hp => ?_, fun k p hk => ?_⟩
  · rw [h.in_online, h.in_offline]
    by_cases hc : s.conn p = invalidId
    · exact .inr ⟨⟨hp, hc⟩, fun ho => ho.2 hc⟩
    · exact .inl ⟨⟨hp, hc⟩, fun ho => hc ho.2⟩
  · rw [h.in_online]
    simp only [hp, true_and]
  · rcases hk with hk | hk
    · obtain ⟨hp, hid⟩ := h.maps.online.mem hk
      exact ⟨hp.1, hid⟩
    · obtain ⟨hp, hid⟩ := h.maps.offline.mem hk
      exact ⟨hp.1, hid⟩

theorem toUInt32_toUInt64_eq_iff (pid : UInt64) : pid.toUInt32.toUInt64 = pid ↔ pid.toNat < 2 ^ 32 := by
  rw [← UInt64.toNat_inj, UInt32.toNat_toUInt64, UInt64.toNat_toUInt32]
  omega

theorem PlayerManager.Ok.logsOut_iff (h : s.Ok act zs) (pid : UInt64) (load : PlayerLoad) :
    s.LogsOut pid load ↔ pid.toNat < 2 ^ 32 ∨ s.online pid = none := by
  obtain ⟨s', act', zs', hset, hok, -, hon⟩ := h.agPMSetOffline pid.toUInt32
  obtain ⟨s₁, act₁, hget, -, -⟩ := hok.agPMGetOnline pid
  have hconn : s.playerSetConn pid invalidId load = .ok s' := by
    rw [PlayerManager.playerSetConn, if_pos rfl]
    exact hset
  have hout : s'.online pid = none ↔ pid.toNat < 2 ^ 32 ∨ s.online pid = none := by
    rw [hon, ← toUInt32_toUInt64_eq_iff]
    by_cases he : pid.toUInt32.toUInt64 = pid
    · simp only [he, Function.update_self, true_or]
    · rw [Function.update_of_ne (Ne.symm he)]
      simp only [he, false_or]
  rw [← hout]
  constructor
  · rintro ⟨s'', hs'', ⟨s₂, hg⟩, -⟩
    obtain rfl : s' = s'' := ok_unique hconn hs''
    exact (ok_pair_inj (hget.symm.trans hg)).2
  · intro hnone
    rw [hnone] at hget
    refine ⟨s', hconn, ⟨s₁, hget⟩, s₁, ?_⟩
    simp only [PlayerManager.playerGetConn, hget, ok_bind]

/-- In every state reached, by calls with any ids, the loaded players are partitioned into online and
offline by their connections; and taking a player offline has its effect exactly when the id fits
into 32 bits or the player was not online. -/
theorem players_partitioned {now : ℕ} {acts : List PlayerAct}
    (hok : Along PlayerManager.step PlayerManager.UnloadOk (modulePlayerLoad now) acts) :
    ∃ s, run PlayerManager.step (modulePlayerLoad now) acts = .ok s ∧ s.Partitioned ∧
      ∀ pid load, s.LogsOut pid load ↔ pid.toNat < 2 ^ 32 ∨ s.online pid = none := by
  have hstep : ∀ s a, (∃ act zs, PlayerManager.Ok s act zs) → s.UnloadOk a →
      ∃ s', s.step a = .ok s' ∧ ∃ act zs, PlayerManager.Ok s' act zs := by
    rintro s a ⟨act, zs, h⟩ ha
    obtain ⟨s', act', zs', hs, h', -⟩ := h.step ha
    exact ⟨s', hs, act', zs', h'⟩
  obtain ⟨s, hrun, act, zs, h⟩ := run_ok hstep acts _ ⟨_, _, modulePlayerLoad_ok now⟩ hok
  exact ⟨s, hrun, h.partitioned, h.logsOut_iff⟩

theorem players_partitioned_small_id :
    ∃ s, run PlayerManager.step (modulePlayerLoad 100) [.setConn 5 7 .loaded] = .ok s ∧ s.Partitioned ∧
      s.LogsOut 5 .loaded := by
  obtain ⟨s, hrun, hpart, hout⟩ := @players_partitioned 100 [.setConn 5 7 .loaded]
    (.cons trivial rfl trivial)
  exact ⟨s, hrun, hpart, (hout 5 .loaded).mpr (.inl (by decide))⟩

/-- Player 5 of server 1, with the id 2^32 + 5, logs in; taking it offline looks for player 5. -/
theorem player_stays_online : ¬ ∀ now acts s pid load,
    Along PlayerManager.step PlayerManager.UnloadOk (modulePlayerLoad now) acts →
      run PlayerManager.step (modulePlayerLoad now) acts = .ok s → s.LogsOut pid load := by
  intro hall
  obtain ⟨s', hset, ⟨s₁, hget⟩, -⟩ := hall 100 [.setConn 0x100000005 7 .loaded] _ 0x100000005 .loaded
    (.cons trivial rfl trivial) rfl
  obtain rfl := Except.ok.inj hset
  cases congrArg (Except.map Prod.snd) hget

/-- With a clock that does not go back: `player_zombie_list` holds the loaded players that are not online, in the order of their
times, and `player_zombie_table` finds them by id. What `try_unload_player_from_zombie_list` releases was loaded, not online,
and not touched for more than `YQ_MAX_ZOMBIE_TIME`; and no player was ever released twice. -/
theorem zombies_unloaded_safely {now : ℕ} {acts : List PlayerAct}
    (hok : Along PlayerManager.step (fun s a => s.UnloadOk a ∧ s.ClockOk a) (modulePlayerLoad now) acts) :
    ∃ s zs, run PlayerManager.step (modulePlayerLoad now) acts = .ok s ∧
      DListed s.zombies s.zombieList zs ∧ (∀ p, p ∈ zs ↔ s.alive p = true ∧ ¬ ∃ k, s.online k = some p) ∧
      zs.Pairwise (fun p q => s.zombieTime p ≤ s.zombieTime q) ∧
      (∀ pid p, s.getPlayerFromZombieList pid = some p ↔ p ∈ zs ∧ s.id p = pid) ∧
      ∃ s' ps, s.tryUnloadPlayerFromZombieList = .ok s' ∧ s'.unloaded = s.unloaded ++ ps ∧ s'.unloaded.Nodup ∧
        (∀ p, s'.alive p = true ↔ s.alive p = true ∧ p ∉ ps) ∧
        ∀ p ∈ ps, s.alive p = true ∧ (¬ ∃ k, s.online k = some p) ∧ s.touched p + yqMaxZombieTime < s.current := by
  have hstep : ∀ s a, (∃ act zs, PlayerManager.Ok s act zs ∧ s.Timely zs) → (s.UnloadOk a ∧ s.ClockOk a) →
      ∃ s', s.step a = .ok s' ∧ ∃ act zs, PlayerManager.Ok s' act zs ∧ s'.Timely zs := by
    rintro s a ⟨act, zs, h, ht⟩ ⟨hunload, hclock⟩
    obtain ⟨s', act', zs', hs, h', htime⟩ := h.step hunload
    exact ⟨s', hs, act', zs', h', htime ht hclock⟩
  have hinit : (modulePlayerLoad now).Timely [] :=
    ⟨.nil, fun p hp => absurd hp List.not_mem_nil, List.nodup_nil, fun p hp => absurd hp List.not_mem_nil⟩
  obtain ⟨s, hrun, act, zs, h, ht⟩ := run_ok hstep acts _ ⟨_, _, modulePlayerLoad_ok now, hinit⟩ hok
  have hoffline : ∀ p, s.alive p = true → (s.conn p = invalidId ↔ ¬ ∃ k, s.online k = some p) := by
    intro p hp
    rw [h.in_online]
    simp only [hp, true_and, ne_eq, not_not]
  obtain ⟨s', act', zs', ps, hloop, -, hps, hlive, htime⟩ := h.unload_zombies zs h.zombies_length
  obtain ⟨ht', hall⟩ := htime ht
  refine ⟨s, zs, hrun, h.cache.list, fun p => ?_, ht.sorted, h.cache.table, s', ps, hloop, hps, ht'.once, hlive,
    fun p hp => ?_⟩
  · rw [h.zombie p]
    exact and_congr_right (hoffline p)
  · obtain ⟨h1, h2, h3⟩ := hall p hp
    exact ⟨h1, (hoffline p h1).mp h2, h3⟩

theorem zombies_unloaded_safely_two : ∃ s s', run PlayerManager.step (modulePlayerLoad 100)
      [.get 5 .loaded, .get 6 .loaded, .time 900, .get 5 .loaded, .time 1001] = .ok s ∧
    s.tryUnloadPlayerFromZombieList = .ok s' ∧ s'.unloaded = [1] ∧ s'.alive 0 = true := by
  obtain ⟨s, zs, hrun, -, -, -, -, s', ps, hunl, -⟩ := @zombies_unloaded_safely 100
    [.get 5 .loaded, .get 6 .loaded, .time 900, .get 5 .loaded, .time 1001]
    (.cons ⟨trivial, trivial⟩ rfl (.cons ⟨trivial, trivial⟩ rfl (.cons ⟨trivial, (by decide : 100 ≤ 900)⟩ rfl
      (.cons ⟨trivial, trivial⟩ rfl (.cons ⟨trivial, (by decide : 900 ≤ 1001)⟩ rfl trivial)))))
  refine ⟨s, s', hrun, hunl, ?_⟩
  obtain rfl := Except.ok.inj hrun
  obtain rfl := Except.ok.inj hunl
  exact ⟨rfl, rfl⟩

end CServer.World
