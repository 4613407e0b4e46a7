import CServer.Logic.QuestReward

/-! # `world/logic/aL.c`: the limit of a quest in a period

A quest with a period may be submitted `count_limit` times in each of them. `quest->count` counts the
submissions, and `aL_update_quest_status` sets it back when it first sees the quest in a new period; but it
leaves a cancelled quest alone, and it sets the count back also when only the time limit is over.
-/
namespace CServer.Logic
open CServer.Lib CServer.Modules Option
open List hiding lookup

/-! ## Periods -/

section Periods
variable {b p x y : ℤ}

def periodStart (b p x : ℤ) : ℤ := x - (x - b).tmod p

theorem periodStart_eq (h : b ≤ x) : periodStart b p x = b + (x - b) / p * p := by
  have hmod : (x - b).tmod p = (x - b) % p := Int.tmod_eq_emod_of_nonneg (by omega)
  have hdiv := Int.emod_add_ediv_mul (x - b) p
  unfold periodStart
  rw [hmod]
  omega

theorem periodStart_le (hp : 0 < p) (h : b ≤ x) : periodStart b p x ≤ x := by
  have hle := Int.ediv_mul_le (x - b) (ne_of_gt hp)
  rw [periodStart_eq h]
  omega

theorem periodStart_mono (hp : 0 < p) (h : b ≤ x) (hxy : x ≤ y) : periodStart b p x ≤ periodStart b p y := by
  rw [periodStart_eq h, periodStart_eq (h.trans hxy)]
  have hdiv : (x - b) / p ≤ (y - b) / p := Int.ediv_le_ediv hp (by omega)
  have hmul := mul_le_mul_of_nonneg_right hdiv (le_of_lt hp)
  omega

theorem lt_periodStart (hp : 0 < p) (h : b ≤ x) (h' : b ≤ y) (hlt : periodStart b p x < periodStart b p y) :
    x < periodStart b p y := by
  rw [periodStart_eq h, periodStart_eq h'] at hlt
  rw [periodStart_eq h']
  have hdiv : (x - b) / p < (y - b) / p := lt_of_mul_lt_mul_right (by omega) (le_of_lt hp)
  have hmul := mul_le_mul_of_nonneg_right (Int.add_one_le_of_lt hdiv) (le_of_lt hp)
  have hx := Int.lt_ediv_add_one_mul_self (x - b) hp
  omega

end Periods

/-! ## What is left of the limit -/

variable (t : QuestTable)

variable (cfg : QuestConfig)

def submittedIn (q : ℕ) (p : ℤ) (submissions : List (ℕ × ℕ)) : ℕ :=
  submissions.countP fun x => decide (x.1 = q ∧ cfg.periodBegin t x.2 = p)

def countNow (now : ℤ) (quest : Option Quest) : ℤ :=
  quest.elim 0 fun x => (updateQuestStatus t cfg now x).count

def QuestState.available (q : ℕ) (s : QuestState) : ℤ :=
  cfg.countLimit - countNow t cfg s.now (s.find q)

/-- No period has more submissions than the limit, and those of the current one and what is available add up to
it: at the begin of a period all of it is available. -/
structure WithinLimit (t : QuestTable) (cfg : QuestConfig) (q : ℕ) (s : QuestState) : Prop where
  bounded : ∀ p, (submittedIn t cfg q p s.submissions : ℤ) ≤ cfg.countLimit
  available : s.available t cfg q + submittedIn t cfg q (cfg.periodBegin t s.now) s.submissions = cfg.countLimit
  afresh : submittedIn t cfg q (cfg.periodBegin t s.now) s.submissions = 0 → s.available t cfg q = cfg.countLimit

/-- When a period ends, the quest has no count or is not cancelled; when the time limit ends within the period of its
acceptance, it has none or is cancelled. When a submission passes its checks, the limit has room for it beside those under
way. -/
def LeavesCount (q : ℕ) (s : QuestState) : QuestAct → Prop
  | .time now => s.now ≤ now → ∀ quest ∈ s.find q, quest.count = 0 ∨
      if cfg.periodBegin t now = cfg.periodBegin t s.now then
        quest.status = questStatusCancel ∨ quest.acceptTime < cfg.periodBegin t now ∨
          timeLimitOver cfg s.now quest = true ∨ timeLimitOver cfg now quest = false
      else quest.status ≠ questStatusCancel
  | .tick v =>
    match s.todo with
    | .resume (.submit id _ _) :: _ => id = q → (s.checkSubmit t v q).isSome →
        ∀ quest ∈ s.find q, quest.count + s.todo.countP (isFinish q) < cfg.countLimit
    | _ => True
  | _ => True

def submittedNext : List QuestInstr → Option ℕ
  | .resume (.submit id _ _) :: _ => some id
  | _ => none

theorem leavesCount_tick {t : QuestTable} {cfg : QuestConfig} {q : ℕ} {s : QuestState} {v : PlayerView} :
    (∀ id ∈ submittedNext s.todo, id = q → (s.checkSubmit t v q).isSome →
      ∀ quest ∈ s.find q, quest.count + s.todo.countP (isFinish q) < cfg.countLimit) ↔ LeavesCount t cfg q s (.tick v) := by
  unfold LeavesCount submittedNext
  split
  · simp
  · simp

instance   (q : ℕ) (s : QuestState) : (a : QuestAct) → Decidable (LeavesCount t cfg q s a)
  | .time now => by
    dsimp only [LeavesCount]
    infer_instance
  | .tick _ => decidable_of_iff _ leavesCount_tick
  | .accept _ _ | .cancel _ _ | .submit _ _ _ _ | .onEvent _ _ _ | .inventory _ => .isTrue trivial

/-! ## A quest and the time -/

def Current (now : ℤ) (x : Quest) : Prop :=
  cfg.periodBegin t now ≤ x.acceptTime ∧ timeLimitOver cfg now x = false

def UpToDate (now : ℤ) (x : Quest) : Prop :=
  x.status = questStatusCancel ∨ Current t cfg now x

/-- A quest that has been accepted within its times, with a count within its limit. -/
structure Sane (t : QuestTable) (cfg : QuestConfig) (now : ℕ) (x : Quest) : Prop where
  status : 0 ≤ x.status ∧ x.status ≤ 2
  count : 0 ≤ x.count ∧ x.count ≤ cfg.countLimit
  accepted : cfg.beginTime t ≤ x.acceptTime ∧ 0 ≤ x.acceptTime ∧ x.acceptTime ≤ now

structure IsReset (x y : Quest) : Prop where
  status : y.status = questStatusCancel
  count : y.count = 0
  acceptTime : y.acceptTime = x.acceptTime

section Quests
variable {t : QuestTable} {cfg : QuestConfig} {now : ℕ} {x : Quest}

theorem updateQuestStatus_of_upToDate {now : ℤ} (h : UpToDate t cfg now x) : updateQuestStatus t cfg now x = x := by
  unfold updateQuestStatus
  rcases h with h | h
  · rw [if_pos h]
  · have hperiod : periodOver t cfg now x = false := by
      unfold periodOver
      exact decide_eq_false fun hp => absurd hp.2 (not_lt.mpr h.1)
    have hlimit : checkTimeLimit cfg now x = x := by
      unfold checkTimeLimit
      rw [h.2]
      rfl
    rw [hperiod]
    simp only [Bool.false_eq_true, if_false, hlimit, ite_self]

theorem Sane.reset (h : Sane t cfg now x) : IsReset x (resetQuest x) := by
  have hlt := cfg.countLimit_lt
  have hst := h.status
  have hct := h.count
  exact ⟨tryUpdate_eq (by decide) (by omega) (by omega), tryUpdate_eq (le_refl 0) (by omega) (by omega), rfl⟩

theorem Sane.of_reset (h : Sane t cfg now x) {y : Quest} (hy : IsReset x y) : Sane t cfg now y where
  status := by
    rw [hy.status]
    decide
  count := by
    have hct := h.count
    rw [hy.count]
    omega
  accepted := by
    rw [hy.acceptTime]
    exact h.accepted

theorem Sane.opened (h : Sane t cfg now x) : (QuestState.openQuest now x).status = questStatusInit ∧
    (QuestState.openQuest now x).count = x.count ∧ (QuestState.openQuest now x).acceptTime = now := by
  have hst := h.status
  have hac := h.accepted
  refine ⟨tryUpdate_eq (by decide) (by omega) (by omega), tryUpdate_neg (by decide), ?_⟩
  unfold QuestState.openQuest questUpdateStatus tryUpdateTime tryUpdate
  simp only
  by_cases h0 : (now : ℤ) = 0
  · rw [if_neg (not_ne_iff.mpr h0)]
    simp only
    omega
  · rw [if_pos h0]
    split
    · rfl
    · next hne =>
      unfold toInt at hne
      simp only
      omega

theorem Sane.cancelled (h : Sane t cfg now x) : (QuestState.cancelQuest x).status = questStatusCancel ∧
    (QuestState.cancelQuest x).count = x.count ∧ (QuestState.cancelQuest x).acceptTime = x.acceptTime := by
  have hst := h.status
  exact ⟨tryUpdate_eq (by decide) (by omega) (by omega), tryUpdate_neg (by decide), rfl⟩

theorem Sane.finished (h : Sane t cfg now x) (hlt : x.count < cfg.countLimit) (record1 record2 : ℤ) :
    (QuestState.finishQuest now record1 record2 x).status = questStatusFinish ∧
      (QuestState.finishQuest now record1 record2 x).count = x.count + 1 ∧
      (QuestState.finishQuest now record1 record2 x).acceptTime = x.acceptTime := by
  have hst := h.status
  have hlim := cfg.countLimit_lt
  exact ⟨tryUpdate_eq (by decide) (by omega) (by omega), finishQuest_count _ _ _ h.count.1 (by omega), rfl⟩

theorem Sane.updated (h : Sane t cfg now x) (hold : ¬ UpToDate t cfg now x) (hperiod : cfg.period ≠ 0) :
    IsReset x (updateQuestStatus t cfg now x) := by
  have hst : x.status ≠ questStatusCancel := fun he => hold (.inl he)
  unfold updateQuestStatus
  rw [if_neg hst]
  by_cases hp : periodOver t cfg now x = true
  · rw [if_pos hp]
    rcases checkTimeLimit_cases cfg now (resetQuest x) with he | he
    · rw [he]
      exact h.reset
    · have hr := (h.of_reset h.reset).reset
      rw [he]
      exact ⟨hr.status, hr.count, hr.acceptTime.trans h.reset.acceptTime⟩
  · rw [if_neg hp]
    have hover : timeLimitOver cfg now x = true := by
      by_contra hl
      apply hold
      right
      refine ⟨?_, Bool.eq_false_iff.mpr hl⟩
      by_contra hlt
      exact hp (decide_eq_true ⟨hperiod, not_le.mp hlt⟩)
    unfold checkTimeLimit
    rw [if_pos hover]
    exact h.reset

theorem countNow_upToDate (h : UpToDate t cfg now x) : countNow t cfg now (some x) = x.count := by
  unfold countNow
  rw [elim_some, updateQuestStatus_of_upToDate h]

theorem countNow_stale (h : Sane t cfg now x) (hold : ¬ UpToDate t cfg now x) (hperiod : cfg.period ≠ 0) :
    countNow t cfg now (some x) = 0 := (h.updated hold hperiod).count

theorem countNow_zero (h : Sane t cfg now x) (h0 : x.count = 0) (hperiod : cfg.period ≠ 0) :
    countNow t cfg now (some x) = 0 := by
  by_cases hup : UpToDate t cfg now x
  · rw [countNow_upToDate hup, h0]
  · exact countNow_stale h hup hperiod

theorem Current.congr {y : Quest} (h : Current t cfg now x) (hy : y.acceptTime = x.acceptTime) : Current t cfg now y := by
  unfold Current timeLimitOver at h ⊢
  rw [hy]
  exact h

theorem periodBegin_eq (hp : 0 < cfg.period) (now : ℤ) :
    cfg.periodBegin t now = periodStart (cfg.beginTime t) cfg.period now := by
  unfold QuestConfig.periodBegin QuestConfig.periodPass QuestConfig.periodOf
  rw [if_pos (ne_of_gt hp)]
  rfl

theorem current_now {y : Quest} (hp : 0 < cfg.period) (hbegin : cfg.beginTime t ≤ now) (hy : y.acceptTime = now) :
    Current t cfg now y := by
  refine ⟨?_, decide_eq_false fun h => ?_⟩
  · rw [hy, periodBegin_eq hp]
    exact periodStart_le hp hbegin
  · rw [hy] at h
    omega

structure Evolves (t : QuestTable) (cfg : QuestConfig) (now : ℕ) (x y : Quest) : Prop where
  sane : Sane t cfg now y
  current : Current t cfg now x → Current t cfg now y
  upToDate : UpToDate t cfg now x → UpToDate t cfg now y
  expired : (x.status = questStatusCancel → x.count = 0) → y.status = questStatusCancel → y.count = 0
  counted : countNow t cfg now (some y) = countNow t cfg now (some x)
  count : y.count ≤ x.count
  room : (x.status = questStatusInit → x.count < cfg.countLimit) → y.status = questStatusInit → y.count < cfg.countLimit

theorem Evolves.refl (h : Sane t cfg now x) : Evolves t cfg now x x :=
  ⟨h, id, id, id, rfl, le_refl _, id⟩

theorem IsReset.evolves {y : Quest} (hy : IsReset x y) (h : Sane t cfg now x) (h0 : countNow t cfg now (some x) = 0) :
    Evolves t cfg now x y where
  sane := h.of_reset hy
  current := fun hc => hc.congr hy.acceptTime
  upToDate := fun _ => .inl hy.status
  expired := fun _ _ => hy.count
  counted := by
    rw [countNow_upToDate (.inl hy.status), hy.count, h0]
  count := by
    rw [hy.count]
    exact h.count.1
  room := fun _ hst => by
    rw [hy.status] at hst
    exact absurd hst (by decide)

theorem evolves_updated (h : Sane t cfg now x) (hperiod : cfg.period ≠ 0) :
    Evolves t cfg now x (updateQuestStatus t cfg now x) ∧ UpToDate t cfg now (updateQuestStatus t cfg now x) := by
  by_cases hold : UpToDate t cfg now x
  · rw [updateQuestStatus_of_upToDate hold]
    exact ⟨Evolves.refl h, hold⟩
  · have hy := h.updated hold hperiod
    exact ⟨hy.evolves h (countNow_stale h hold hperiod), .inl hy.status⟩

theorem evolves_opened (h : Sane t cfg now x) (hp : 0 < cfg.period) (hup : UpToDate t cfg now x)
    (hlt : x.count < cfg.countLimit) : Evolves t cfg now x (QuestState.openQuest now x) := by
  obtain ⟨hst, hct, hac⟩ := h.opened
  have hcur : Current t cfg now (QuestState.openQuest now x) := current_now hp (h.accepted.1.trans h.accepted.2.2) hac
  refine ⟨⟨by rw [hst]; decide, by rw [hct]; exact h.count, ?_⟩, fun _ => hcur, fun _ => .inr hcur, fun _ hc => ?_, ?_,
    le_of_eq hct, fun _ _ => hct ▸ hlt⟩
  · rw [hac]
    exact ⟨h.accepted.1.trans h.accepted.2.2, Int.natCast_nonneg now, le_refl _⟩
  · rw [hst] at hc
    exact absurd hc (by decide)
  · rw [countNow_upToDate (.inr hcur), countNow_upToDate hup, hct]

theorem evolves_recorded (h : Sane t cfg now x) (hperiod : cfg.period ≠ 0) (r : ℤ × ℤ) :
    Evolves t cfg now x (QuestState.recordQuest r x) := by
  have hst := recordQuest_status r x
  have hct : (QuestState.recordQuest r x).count = x.count := tryUpdate_neg (by decide)
  have hac : (QuestState.recordQuest r x).acceptTime = x.acceptTime := rfl
  have hs : Sane t cfg now (QuestState.recordQuest r x) := by
    refine ⟨?_, ?_, ?_⟩
    · rw [hst]
      exact h.status
    · rw [hct]
      exact h.count
    · rw [hac]
      exact h.accepted
  have hup : UpToDate t cfg now (QuestState.recordQuest r x) ↔ UpToDate t cfg now x := by
    unfold UpToDate
    rw [hst]
    exact or_congr_right ⟨fun hc => hc.congr hac.symm, fun hc => hc.congr hac⟩
  refine ⟨hs, fun hc => hc.congr hac, hup.mpr, ?_, ?_, le_of_eq hct, ?_⟩
  · rw [hst, hct]
    exact id
  · by_cases hx : UpToDate t cfg now x
    · rw [countNow_upToDate hx, countNow_upToDate (hup.mpr hx), hct]
    · rw [countNow_stale h hx hperiod, countNow_stale hs (fun hy => hx (hup.mp hy)) hperiod]
  · rw [hst, hct]
    exact id

end Quests

/-! ## The invariant -/

def QuestResume.opening : QuestResume → Option ℕ
  | .depend id => some id
  | .group id _ _ => some id
  | .accept id => some id
  | _ => none

def QuestInstr.opening : QuestInstr → Option ℕ
  | .update _ next => next.opening
  | .resume next => next.opening
  | .acceptGroup id _ => some id
  | _ => none

def QuestResume.subject : QuestResume → Option ℕ
  | .accept id => some id
  | .cancel id => some id
  | .submit id _ _ => some id
  | _ => none

def QuestInstr.cancels : QuestInstr → Bool
  | .cancel _ _ => true
  | .update _ (.cancel _) => true
  | .resume (.cancel _) => true
  | _ => false

section Invariant
variable (t : QuestTable) (cfg : QuestConfig) (q : ℕ)

def QuestInstr.ReadyFor (now : ℕ) (quest : Option Quest) : QuestInstr → Prop
  | .update id next => next.subject = some q → id = q
  | .resume next => next.subject = some q → ∀ x, quest = some x → UpToDate t cfg now x
  | .finish id _ _ _ _ => id = q → ∀ x, quest = some x → Current t cfg now x
  | .expire id => id = q → ∀ x, quest = some x → x.status = questStatusCancel → x.count = 0
  | _ => True

structure QuestInstr.Ready (now : ℕ) (quest : Option Quest) (i : QuestInstr) : Prop where
  opening : i.opening = some q → cfg.beginTime t ≤ now
  state : i.ReadyFor t cfg q now quest

/-- The count the quest has once it is up to date is the number of submissions in the period, and the limit has
room for the submissions under way. -/
structure Paced (quest : Option Quest) (now : ℕ) (submissions : List (ℕ × ℕ)) (todo : List QuestInstr) : Prop where
  absent : quest = none → (∀ x ∈ submissions, x.1 ≠ q) ∧ todo.countP (isFinish q) = 0
  sane : ∀ x, quest = some x → Sane t cfg now x
  counted : countNow t cfg now quest = submittedIn t cfg q (cfg.periodBegin t now) submissions
  room : ∀ x, quest = some x → x.count + todo.countP (isFinish q) ≤ cfg.countLimit ∧
    (x.status = questStatusInit → x.count < cfg.countLimit)
  ready : ∀ i ∈ todo, i.Ready t cfg q now quest
  last : todo.Pairwise fun i _ => i.cancels = false
  times : ∀ x ∈ submissions, x.1 = q → cfg.beginTime t ≤ x.2 ∧ x.2 ≤ now
  bounded : ∀ p, (submittedIn t cfg q p submissions : ℤ) ≤ cfg.countLimit

def QuestState.Paces (s : QuestState) : Prop := Paced t cfg q (s.find q) s.now s.submissions s.todo

end Invariant

section Paced
variable {t : QuestTable} {cfg : QuestConfig} {q : ℕ} {quest : Option Quest} {now : ℕ} {submissions : List (ℕ × ℕ)}
  {todo : List QuestInstr}

theorem Paced.tail {i : QuestInstr} (h : Paced t cfg q quest now submissions (i :: todo)) :
    Paced t cfg q quest now submissions todo := by
  have hle : todo.countP (isFinish q) ≤ (i :: todo).countP (isFinish q) := by
    rw [countP_cons]
    omega
  refine ⟨fun hn => ⟨(h.absent hn).1, ?_⟩, h.sane, h.counted, fun x hx => ⟨?_, (h.room x hx).2⟩,
    fun j hj => h.ready j (mem_cons_of_mem i hj), (pairwise_cons.mp h.last).2, h.times, h.bounded⟩
  · have h0 := (h.absent hn).2
    omega
  · have hr := (h.room x hx).1
    omega

theorem Paced.append (h : Paced t cfg q quest now submissions todo) {is : List QuestInstr}
    (his : ∀ j ∈ is, j.Ready t cfg q now quest ∧ isFinish q j = false ∧ j.cancels = false) :
    Paced t cfg q quest now submissions (is ++ todo) := by
  have hcount : (is ++ todo).countP (isFinish q) = todo.countP (isFinish q) := by
    have h0 : is.countP (isFinish q) = 0 := countP_eq_zero.mpr fun j hj => by rw [(his j hj).2.1]; exact Bool.false_ne_true
    rw [countP_append, h0, Nat.zero_add]
  refine ⟨fun hn => ?_, h.sane, h.counted, fun x hx => ?_, ?_, ?_, h.times, h.bounded⟩
  · rw [hcount]
    exact h.absent hn
  · rw [hcount]
    exact h.room x hx
  · intro j hj
    exact (mem_append.mp hj).elim (fun hj => (his j hj).1) (h.ready j)
  · apply pairwise_append.mpr
    refine ⟨pairwise_of_forall_mem_list fun a ha _ _ => (his a ha).2.2, h.last, ?_⟩
    exact fun a ha _ _ => (his a ha).2.2

theorem Paced.replace {i k : QuestInstr} {js : List QuestInstr} (h : Paced t cfg q quest now submissions (i :: todo))
    (hjs : ∀ j ∈ js, j.Ready t cfg q now quest ∧ isFinish q j = false ∧ j.cancels = false)
    (hk : k.Ready t cfg q now quest) (hf : isFinish q k = false) (hc : k.cancels = true → i.cancels = true) :
    Paced t cfg q quest now submissions (js ++ k :: todo) := by
  apply Paced.append _ hjs
  have ht := h.tail
  have hcount : (k :: todo).countP (isFinish q) = todo.countP (isFinish q) :=
    countP_cons_of_neg (by rw [hf]; exact Bool.false_ne_true)
  refine ⟨fun hn => ?_, h.sane, h.counted, fun x hx => ?_, ?_, ?_, h.times, h.bounded⟩
  · rw [hcount]
    exact ht.absent hn
  · rw [hcount]
    exact ht.room x hx
  · intro j hj
    rcases mem_cons.mp hj with rfl | hj
    · exact hk
    · exact ht.ready j hj
  · apply pairwise_cons.mpr
    refine ⟨fun j hj => ?_, ht.last⟩
    have hi := (pairwise_cons.mp h.last).1 j hj
    by_contra hkc
    rw [hc (by simpa using hkc)] at hi
    cases hi

theorem QuestInstr.Ready.evolves {i : QuestInstr} {x y : Quest} (h : i.Ready t cfg q now (some x)) (he : Evolves t cfg now x y) :
    i.Ready t cfg q now (some y) := by
  refine ⟨h.opening, ?_⟩
  have hs := h.state
  cases i with
  | update id next => exact hs
  | resume next =>
    intro hn z hz
    obtain rfl := some.inj hz
    exact he.upToDate (hs hn x rfl)
  | finish id rich select record1 record2 =>
    intro hid z hz
    obtain rfl := some.inj hz
    exact he.current (hs hid x rfl)
  | expire id =>
    intro hid z hz
    obtain rfl := some.inj hz
    exact he.expired (hs hid x rfl)
  | _ => trivial

theorem QuestInstr.Ready.current {i : QuestInstr} {y : Quest} (h : i.Ready t cfg q now quest) (hcur : Current t cfg now y)
    (hexp : y.status = questStatusCancel → y.count = 0) : i.Ready t cfg q now (some y) := by
  refine ⟨h.opening, ?_⟩
  have hs := h.state
  cases i with
  | update id next => exact hs
  | resume next =>
    intro _ z hz
    exact .inr (some.inj hz ▸ hcur)
  | finish id rich select record1 record2 =>
    intro _ z hz
    exact some.inj hz ▸ hcur
  | expire id =>
    intro _ z hz
    exact some.inj hz ▸ hexp
  | _ => trivial

theorem Paced.changed {x y : Quest} (h : Paced t cfg q (some x) now submissions todo) (he : Evolves t cfg now x y) :
    Paced t cfg q (some y) now submissions todo := by
  refine ⟨fun hn => absurd hn (some_ne_none y), ?_, he.counted.trans h.counted, ?_,
    fun i hi => (h.ready i hi).evolves he, h.last, h.times, h.bounded⟩
  · intro z hz
    obtain rfl := some.inj hz
    exact he.sane
  · intro z hz
    obtain rfl := some.inj hz
    have hr := h.room x rfl
    have hle := he.count
    exact ⟨by omega, he.room hr.2⟩

theorem Paced.added {y : Quest} (h : Paced t cfg q none now submissions todo) (hlimit : 0 < cfg.countLimit)
    (hperiod : 0 < cfg.period) (hbegin : cfg.beginTime t ≤ now) (hst : y.status = questStatusInit) (hct : y.count = 0)
    (hac : y.acceptTime = now) : Paced t cfg q (some y) now submissions todo := by
  have hcur : Current t cfg now y := current_now hperiod hbegin hac
  refine ⟨fun hn => absurd hn (some_ne_none y), ?_, ?_, ?_, ?_, h.last, h.times, h.bounded⟩
  · intro z hz
    obtain rfl := some.inj hz
    refine ⟨by rw [hst]; decide, by rw [hct]; omega, ?_⟩
    rw [hac]
    exact ⟨hbegin, Int.natCast_nonneg now, le_refl _⟩
  · rw [countNow_upToDate (.inr hcur), hct, ← h.counted]
    rfl
  · intro z hz
    obtain rfl := some.inj hz
    rw [(h.absent rfl).2, hct]
    exact ⟨by omega, fun _ => hlimit⟩
  · exact fun i hi => (h.ready i hi).current hcur fun _ => hct

theorem Paced.cancelled {x : Quest} (h : Paced t cfg q (some x) now submissions []) (hup : UpToDate t cfg now x) :
    Paced t cfg q (some (QuestState.cancelQuest x)) now submissions [] := by
  have hs := h.sane x rfl
  obtain ⟨hst, hct, hac⟩ := hs.cancelled
  refine ⟨fun hn => absurd hn (some_ne_none _), ?_, ?_, ?_, fun i hi => absurd hi not_mem_nil, List.Pairwise.nil,
    h.times, h.bounded⟩
  · intro z hz
    obtain rfl := some.inj hz
    refine ⟨by rw [hst]; decide, by rw [hct]; exact hs.count, ?_⟩
    rw [hac]
    exact hs.accepted
  · rw [← h.counted, countNow_upToDate hup, countNow_upToDate (.inl hst), hct]
  · intro z hz
    obtain rfl := some.inj hz
    rw [hct]
    refine ⟨(h.room x rfl).1, fun hi => ?_⟩
    rw [hst] at hi
    exact absurd hi (by decide)

theorem submittedIn_snoc (p : ℤ) (id : ℕ) :
    submittedIn t cfg q p (submissions ++ [(id, now)]) =
      submittedIn t cfg q p submissions + if id = q ∧ cfg.periodBegin t now = p then 1 else 0 := by
  unfold submittedIn
  rw [countP_append, countP_singleton]
  simp only [decide_eq_true_eq]

theorem Paced.other (h : Paced t cfg q quest now submissions todo) {id : ℕ} (hid : id ≠ q) :
    Paced t cfg q quest now (submissions ++ [(id, now)]) todo := by
  have hin : ∀ p, submittedIn t cfg q p (submissions ++ [(id, now)]) = submittedIn t cfg q p submissions := by
    intro p
    rw [submittedIn_snoc, if_neg fun hc => hid hc.1, add_zero]
  refine ⟨fun hn => ⟨fun x hx => ?_, (h.absent hn).2⟩, h.sane, ?_, h.room, h.ready, h.last, fun x hx hxq => ?_, fun p => ?_⟩
  · rcases mem_append.mp hx with hx | hx
    · exact (h.absent hn).1 x hx
    · rw [mem_singleton.mp hx]
      exact hid
  · rw [hin]
    exact h.counted
  · rcases mem_append.mp hx with hx | hx
    · exact h.times x hx hxq
    · rw [mem_singleton.mp hx] at hxq
      exact absurd hxq hid
  · rw [hin]
    exact h.bounded p

theorem Paced.finished {rich : Bool} {select : ℕ} {record1 record2 : ℤ} {x : Quest}
    (h : Paced t cfg q (some x) now submissions (.finish q rich select record1 record2 :: todo)) :
    Paced t cfg q (some (QuestState.finishQuest now record1 record2 x)) now (submissions ++ [(q, now)]) todo := by
  have hs := h.sane x rfl
  have hcur : Current t cfg now x := (h.ready _ mem_cons_self).state rfl x rfl
  have hroom := h.room x rfl
  have hf : (QuestInstr.finish q rich select record1 record2 :: todo).countP (isFinish q) = todo.countP (isFinish q) + 1 :=
    countP_cons_of_pos (decide_eq_true rfl)
  rw [hf] at hroom
  obtain ⟨hst, hct, hac⟩ := hs.finished (by omega) record1 record2
  have hcur' : Current t cfg now (QuestState.finishQuest now record1 record2 x) := hcur.congr hac
  have hcounted := h.counted
  rw [countNow_upToDate (.inr hcur)] at hcounted
  refine ⟨fun hn => absurd hn (some_ne_none _), ?_, ?_, ?_, ?_, h.tail.last, fun z hz hzq => ?_, fun p => ?_⟩
  · intro z hz
    obtain rfl := some.inj hz
    refine ⟨by rw [hst]; decide, ?_, ?_⟩
    · have hcount := hs.count
      rw [hct]
      omega
    · rw [hac]
      exact hs.accepted
  · rw [countNow_upToDate (.inr hcur'), hct, hcounted, submittedIn_snoc, if_pos ⟨rfl, rfl⟩]
    rfl
  · intro z hz
    obtain rfl := some.inj hz
    rw [hct]
    refine ⟨by omega, fun hi => ?_⟩
    rw [hst] at hi
    exact absurd hi (by decide)
  · intro i hi
    apply (h.tail.ready i hi).current hcur'
    intro hc
    rw [hst] at hc
    exact absurd hc (by decide)
  · rcases mem_append.mp hz with hz | hz
    · exact h.times z hz hzq
    · rw [mem_singleton.mp hz]
      exact ⟨hs.accepted.1.trans hs.accepted.2.2, le_refl now⟩
  · have hb := h.bounded p
    rw [submittedIn_snoc]
    by_cases hp : cfg.periodBegin t now = p
    · subst hp
      rw [if_pos ⟨rfl, rfl⟩]
      push_cast
      omega
    · rw [if_neg fun hc => hp hc.2]
      exact hb

end Paced

/-! ## Steps -/

section Steps
variable {t : QuestTable} {cfg : QuestConfig} {q : ℕ} {v : PlayerView} {s : QuestState}

def QuestInstr.plain : QuestInstr → Bool
  | .accept _ _ => true
  | .submit _ _ _ _ => true
  | .onEvent _ _ _ _ => true
  | .consume _ _ => true
  | .pay _ _ => true
  | .commit _ _ _ => true
  | .handlers => true
  | _ => false

theorem ready_plain {now : ℕ} {quest : Option Quest} {i : QuestInstr} (h : i.plain = true) :
    i.Ready t cfg q now quest ∧ isFinish q i = false ∧ i.cancels = false := by
  cases i with
  | cancel id fromClient => cases h
  | update id next => cases h
  | expire id => cases h
  | resume next => cases h
  | acceptGroup id others => cases h
  | finish id rich select record1 record2 => cases h
  | _ => exact ⟨⟨fun ho => absurd ho.symm (some_ne_none q), trivial⟩, rfl, rfl⟩

theorem ready_opening {now : ℕ} {quest : Option Quest} {i : QuestInstr} {id : ℕ} (hi : i.opening = some id)
    (hbegin : id = q → cfg.beginTime t ≤ now) (hstate : i.ReadyFor t cfg q now quest) (hf : isFinish q i = false)
    (hc : i.cancels = false) : i.Ready t cfg q now quest ∧ isFinish q i = false ∧ i.cancels = false :=
  ⟨⟨fun ho => hbegin (some_unique hi ho), hstate⟩, hf, hc⟩

theorem plain_itemEvents {inv inv' : Inventory} {id : ℕ} {j : QuestInstr} (h : j ∈ QuestState.itemEvents inv inv' id) :
    j.plain = true := by
  obtain ⟨type, eventId, count, rfl⟩ := mem_itemEvents h
  rfl

theorem plain_consumes {m : QuestMoment} {id : ℕ} {j : QuestInstr} (h : j ∈ QuestState.consumes t m id) :
    j.plain = true := by
  obtain ⟨c, rfl⟩ := mem_consumes h
  rfl

namespace QuestState

theorem Paces.push (h : s.Paces t cfg q) {is : List QuestInstr} (his : ∀ j ∈ is, j.plain = true) :
    (s.push is).Paces t cfg q := Paced.append h fun j hj => ready_plain (his j hj)

theorem Paces.take (h : s.Paces t cfg q) (m : QuestMoment) (c : QuestConsume) : (s.take t m c).Paces t cfg q :=
  Paced.append h fun _ hj => ready_plain (plain_itemEvents hj)

theorem paced_setQuest {todo : List QuestInstr} (h : Paced t cfg q (s.find q) s.now s.submissions todo) (id : ℕ)
    (f : Quest → Quest) (hid : ∀ x, (f x).id = x.id)
    (hf : id = q → ∀ x, s.find q = some x → Evolves t cfg s.now x (f x)) :
    Paced t cfg q ((s.setQuest id f).find q) s.now s.submissions todo := by
  rw [find_setQuest f hid]
  by_cases hq : q = id
  · subst hq
    rw [if_pos rfl]
    cases hx : s.find q with
    | none =>
      rw [hx] at h
      exact h
    | some x =>
      rw [hx] at h
      exact h.changed (hf rfl x hx)
  · rw [if_neg hq]
    exact h

end QuestState

theorem QuestState.Paces.cancelRest {id : ℕ}
    (h : Paced t cfg q (s.find q) s.now s.submissions (.resume (.cancel id) :: s.todo)) :
    (s.cancelRest t id).Paces t cfg q := by
  have hlast : s.todo = [] := by
    cases htodo : s.todo with
    | nil => rfl
    | cons j rest =>
      rw [htodo] at h
      have hc := (pairwise_cons.mp h.last).1 j mem_cons_self
      cases hc
  unfold QuestState.cancelRest
  split
  · apply QuestState.Paces.push _ fun j hj => plain_consumes hj
    unfold QuestState.Paces
    rw [find_setQuest QuestState.cancelQuest fun _ => rfl]
    have ht := h.tail
    have hhead := (h.ready _ mem_cons_self).state
    by_cases hq : q = id
    · subst hq
      rw [if_pos rfl]
      cases hx : s.find q with
      | none =>
        rw [hx] at ht
        exact ht
      | some x =>
        rw [hx, hlast] at ht
        rw [show (s.setQuest q QuestState.cancelQuest).todo = [] from hlast]
        exact ht.cancelled (hhead rfl x hx)
    · rw [if_neg hq]
      exact ht
  · exact h.tail

theorem QuestState.Paces.submitRest {id : ℕ} {rich : Bool} {select : ℕ}
    (h : Paced t cfg q (s.find q) s.now s.submissions (.resume (.submit id rich select) :: s.todo))
    (hroom : id = q → (s.checkSubmit t v q).isSome → ∀ x ∈ s.find q, x.count + s.todo.countP (isFinish q) < cfg.countLimit) :
    (s.push (s.submitRest t v id rich select)).Paces t cfg q := by
  unfold QuestState.submitRest
  split
  · next record1 record2 cfg' hcheck hcfg' =>
    have hpays : ∀ n, ∀ j ∈ (List.range n).map (QuestInstr.pay id), j.plain = true := by
      intro n j hj
      obtain ⟨k, -, rfl⟩ := mem_map.mp hj
      rfl
    have ht := h.tail
    by_cases hq : id = q
    · subst hq
      unfold QuestState.Paces
      have hsome : (s.checkSubmit t v id).isSome := hcheck ▸ rfl
      unfold QuestState.checkSubmit at hcheck
      split at hcheck
      · next x _ hf _ =>
        split at hcheck
        · cases hcheck
        · next hst =>
          have hcur : Current t cfg s.now x := by
            have hup := (h.ready _ mem_cons_self).state rfl x hf
            rcases hup with hc | hc
            · rw [not_not.mp hst] at hc
              exact absurd hc (by decide)
            · exact hc
          have hr := hroom rfl hsome x hf
          rw [find_push]
          have hlist : (s.push ((List.range cfg'.consume.length).map (QuestInstr.pay id) ++
              [QuestInstr.finish id rich select record1 record2])).todo =
                (List.range cfg'.consume.length).map (QuestInstr.pay id) ++
                  (QuestInstr.finish id rich select record1 record2 :: s.todo) := append_assoc ..
          rw [hlist]
          apply Paced.append _ fun j hj => ready_plain (hpays _ j hj)
          have hcount : (QuestInstr.finish id rich select record1 record2 :: s.todo).countP (isFinish id) =
              s.todo.countP (isFinish id) + 1 := countP_cons_of_pos (decide_eq_true rfl)
          refine ⟨fun hn => ?_, ht.sane, ht.counted, fun y hy => ?_, ?_, ?_, ht.times, ht.bounded⟩
          · rw [hf] at hn
            exact absurd hn (some_ne_none x)
          · obtain rfl := some_unique hf hy
            rw [hcount]
            exact ⟨by omega, (ht.room x hf).2⟩
          · intro j hj
            rcases mem_cons.mp hj with rfl | hj
            · refine ⟨fun ho => absurd ho.symm (some_ne_none id), fun _ y hy => ?_⟩
              exact some_unique hf hy ▸ hcur
            · exact ht.ready j hj
          · exact pairwise_cons.mpr ⟨fun _ _ => rfl, ht.last⟩
      · cases hcheck
    · apply Paced.append ht
      intro j hj
      rcases mem_append.mp hj with hj | hj
      · exact ready_plain (hpays _ j hj)
      · rw [mem_singleton.mp hj]
        exact ⟨⟨fun ho => absurd ho.symm (some_ne_none q), fun he => absurd he hq⟩, decide_eq_false hq, rfl⟩
  · exact h.tail

theorem QuestState.Paces.recordEvent (hperiod : 0 < cfg.period) (h : s.Paces t cfg q) (type eventId count : ℤ) (id : ℕ) :
    (s.recordEvent t v type eventId count id).Paces t cfg q := by
  have hnext : ∀ j ∈ [QuestInstr.onEvent type eventId count (some id)], j.plain = true := by
    intro j hj
    rw [mem_singleton.mp hj]
    rfl
  unfold QuestState.recordEvent
  simp only
  split
  · split
    · split
      · exact h.push hnext
      · next r _ =>
        apply QuestState.Paces.push
        · apply QuestState.paced_setQuest h id (QuestState.recordQuest r) fun _ => rfl
          intro _ x hx
          exact evolves_recorded (h.sane x hx) (ne_of_gt hperiod) r
        · intro j hj
          split at hj
          · rcases mem_cons.mp hj with rfl | hj
            · rfl
            · exact hnext j hj
          · exact hnext j hj
    · exact h.push hnext
  · exact h.push hnext

theorem QuestState.Paces.finish {id : ℕ} {rich : Bool} {select : ℕ} {record1 record2 : ℤ}
    (h : Paced t cfg q (s.find q) s.now s.submissions (.finish id rich select record1 record2 :: s.todo)) :
    (s.finish t id rich select record1 record2).Paces t cfg q := by
  unfold QuestState.finish
  split
  · next quest cfg' hf _ =>
    have hdrops : ∀ j ∈ QuestState.drops cfg' (QuestState.finishQuest s.now record1 record2 quest) ++
        [QuestInstr.commit id rich select], j.plain = true := by
      intro j hj
      rcases mem_append.mp hj with hj | hj
      · rw [mem_drops hj]
        rfl
      · rw [mem_singleton.mp hj]
        rfl
    apply QuestState.Paces.push _ hdrops
    unfold QuestState.Paces
    have hfind : ∀ l, ({ (s.setQuest id (QuestState.finishQuest s.now record1 record2)).setLedger id l with
        submissions := s.submissions ++ [(id, s.now)] } : QuestState).find q =
          if q = id then (s.find id).map (QuestState.finishQuest s.now record1 record2) else s.find q :=
      fun _ => find_setQuest (QuestState.finishQuest s.now record1 record2) (fun _ => rfl) id q
    rw [hfind]
    by_cases hq : q = id
    · subst hq
      rw [hf] at h
      rw [if_pos rfl, hf]
      exact h.finished
    · rw [if_neg hq]
      exact h.tail.other (Ne.symm hq)
  · exact h.tail

theorem QuestState.Paces.commit (h : s.Paces t cfg q) (id : ℕ) (rich : Bool) (select : ℕ) :
    (s.commit t v id rich select).Paces t cfg q := by
  unfold QuestState.commit
  split
  · next cfg' _ _ =>
    apply QuestState.Paces.push (show (s.setLedger id _).Paces t cfg q from h)
    intro j hj
    rcases mem_append.mp hj with hj | hj
    · rcases mem_cons.mp hj with rfl | hj
      · rfl
      · obtain ⟨next, rfl⟩ := mem_nextQuests hj
        rfl
    · rcases mem_cons.mp hj with rfl | hj
      · rfl
      · rw [mem_singleton.mp hj]
        rfl
  · exact h

theorem QuestState.Paces.payCost (h : s.Paces t cfg q) (id i : ℕ) : (s.payCost t id i).Paces t cfg q := by
  unfold QuestState.payCost
  split
  · exact h
  · next c _ =>
    simp only
    split
    · exact h.take .submit c
    · exact h.take .submit c

section Update
variable (hcfg : t.config q = some cfg) (hperiod : 0 < cfg.period)
include hcfg hperiod

theorem QuestState.Paces.updateQuest {id : ℕ} {next : QuestResume}
    (h : Paced t cfg q (s.find q) s.now s.submissions (.update id next :: s.todo)) :
    (s.updateQuest t id next).Paces t cfg q := by
  have hhead := h.ready _ mem_cons_self
  have hcancel : ∀ n, n = next → (QuestInstr.resume n).cancels = true → (QuestInstr.update id next).cancels = true := by
    rintro n rfl hc
    cases n with
    | cancel id' => rfl
    | _ => cases hc
  unfold QuestState.updateQuest
  split
  · next quest cfg' hf hcfg' =>
    have hthis : id = q → cfg' = cfg ∧ s.find q = some quest := by
      rintro rfl
      exact ⟨some_unique hcfg' hcfg, hf⟩
    split
    · next hreset =>
      -- reset by its period and accepted at once
      have hev : id = q → ∀ x, s.find q = some x → Evolves t cfg s.now x (resetQuest x) := by
        intro hid x hx
        obtain ⟨rfl, hq⟩ := hthis hid
        obtain rfl := some_unique hq hx
        apply (h.sane quest hx).reset.evolves (h.sane quest hx)
        apply countNow_stale (h.sane quest hx) _ (ne_of_gt hperiod)
        intro hup
        rcases hup with hst | hcur
        · exact hreset.1 hst
        · exact absurd (of_decide_eq_true hreset.2.1).2 (not_lt.mpr hcur.1)
      have hset := QuestState.paced_setQuest h id resetQuest (fun _ => rfl) hev
      have hnew : id = q → ∀ y, (s.setQuest id resetQuest).find q = some y → IsReset quest y := by
        intro hid y hy
        have hq := (hthis hid).2
        subst hid
        rw [find_setQuest resetQuest (fun _ => rfl), if_pos rfl, hq] at hy
        exact some.inj hy ▸ (h.sane quest hq).reset
      apply @Paced.replace _ _ _ _ _ _ _ _ (.resume next) [.accept id true, .expire id] hset
      · intro j hj
        rcases mem_cons.mp hj with rfl | hj
        · exact ready_plain rfl
        · rw [mem_singleton.mp hj]
          exact ⟨⟨fun ho => absurd ho.symm (some_ne_none q), fun hid y hy _ => (hnew hid y hy).count⟩, rfl, rfl⟩
      · refine ⟨hhead.opening, fun hn y hy => .inl (hnew (hhead.state hn) y hy).status⟩
      · rfl
      · exact hcancel next rfl
    · have hev : id = q → ∀ x, s.find q = some x →
          Evolves t cfg s.now x (updateQuestStatus t cfg' s.now x) ∧
            UpToDate t cfg s.now (updateQuestStatus t cfg' s.now x) := by
        intro hid x hx
        obtain ⟨rfl, -⟩ := hthis hid
        exact evolves_updated (h.sane x hx) (ne_of_gt hperiod)
      have hset := QuestState.paced_setQuest h id _ (updateQuestStatus_id cfg' s.now) fun hid x hx => (hev hid x hx).1
      apply @Paced.replace _ _ _ _ _ _ _ _ (.resume next) [] hset
      · exact fun j hj => absurd hj not_mem_nil
      · refine ⟨hhead.opening, fun hn y hy => ?_⟩
        have hid := hhead.state hn
        have hup := hev hid quest (hthis hid).2
        have hq := (hthis hid).2
        subst hid
        rw [find_setQuest _ (updateQuestStatus_id cfg' s.now), if_pos rfl, hq] at hy
        exact some.inj hy ▸ hup.2
      · rfl
      · exact hcancel next rfl
  · next hnone =>
    apply @Paced.replace _ _ _ _ _ _ _ _ (.resume next) [] h
    · exact fun j hj => absurd hj not_mem_nil
    · refine ⟨hhead.opening, fun hn y hy => ?_⟩
      have hid := hhead.state hn
      subst hid
      exact absurd hcfg (hnone y cfg hy)
    · rfl
    · exact hcancel next rfl

theorem QuestState.Paces.expireQuest {id : ℕ}
    (h : Paced t cfg q (s.find q) s.now s.submissions (.expire id :: s.todo)) : (s.expireQuest t id).Paces t cfg q := by
  have hhead := (h.ready _ mem_cons_self).state
  unfold QuestState.expireQuest
  split
  · exact h.tail
  · next cfg' hcfg' =>
    apply QuestState.paced_setQuest h.tail id _ (checkTimeLimit_id cfg' s.now)
    intro hid x hx
    obtain rfl : cfg = cfg' := by
      subst hid
      exact some_unique hcfg hcfg'
    unfold checkTimeLimit
    split
    · next hover =>
      apply (h.sane x hx).reset.evolves (h.sane x hx)
      by_cases hst : x.status = questStatusCancel
      · rw [countNow_upToDate (.inl hst), hhead hid x hx hst]
      · apply countNow_stale (h.sane x hx) _ (ne_of_gt hperiod)
        intro hup
        rcases hup with hst' | hcur
        · exact hst hst'
        · rw [hcur.2] at hover
          cases hover
    · exact Evolves.refl (h.sane x hx)

theorem QuestState.Paces.acceptAgain {id : ℕ} (hlimit : 0 < cfg.countLimit)
    (h : Paced t cfg q (s.find q) s.now s.submissions (.resume (.accept id) :: s.todo)) :
    (s.acceptAgain t id).Paces t cfg q := by
  unfold QuestState.acceptAgain
  split
  · next ho =>
    apply QuestState.Paces.push _ fun j hj => plain_consumes hj
    apply QuestState.paced_setQuest h.tail id (QuestState.openQuest s.now) fun _ => rfl
    intro hid x hx
    subst hid
    apply evolves_opened (h.sane x hx) hperiod ((h.ready _ mem_cons_self).state rfl x hx)
    unfold QuestState.opens at ho
    rw [hx, hcfg] at ho
    have hnot := (of_decide_eq_true ho).2
    have hcount := (h.sane x hx).count
    have hlt := cfg.countLimit_lt
    rw [toInt_of_int (by omega) (by omega)] at hnot
    omega
  · exact h.tail

theorem QuestState.Paces.acceptNew {id : ℕ} (hlimit : 0 < cfg.countLimit)
    (h : Paced t cfg q (s.find q) s.now s.submissions (.acceptGroup id [] :: s.todo)) :
    (s.acceptNew t id).Paces t cfg q := by
  have hopening : id = q → cfg.beginTime t ≤ s.now := fun hid =>
    (h.ready _ mem_cons_self).opening (congrArg some hid)
  unfold QuestState.acceptNew
  cases hf : s.find id with
  | some quest =>
    apply @Paced.replace _ _ _ _ _ _ _ _ (.update id (.accept id)) [] h
    · exact fun j hj => absurd hj not_mem_nil
    · exact ⟨fun ho => hopening (some.inj ho), fun hn => some.inj hn⟩
    · rfl
    · exact fun hc => absurd hc Bool.false_ne_true
  | none =>
    apply QuestState.Paces.push _ fun j hj => plain_consumes hj
    unfold QuestState.Paces
    rw [find_setLedger, find_newQuest]
    by_cases hq : id = q
    · subst hq
      have ht := h.tail
      rw [hf] at ht ⊢
      rw [if_pos rfl]
      exact ht.added hlimit hperiod (hopening rfl) rfl rfl rfl
    · rw [if_neg hq, or_none]
      exact h.tail

theorem exec_metered (hlimit : 0 < cfg.countLimit) (i : QuestInstr)
    (h : Paced t cfg q (s.find q) s.now s.submissions (i :: s.todo))
    (hc : LeavesCount t cfg q { s with todo := i :: s.todo } (.tick v)) : (s.exec t v i).Paces t cfg q := by
  have htail : s.Paces t cfg q := h.tail
  have hopening : ∀ {id}, i.opening = some id → id = q → cfg.beginTime t ≤ s.now := fun hi hid =>
    (h.ready i mem_cons_self).opening (hi.trans (congrArg some hid))
  cases i with
  | accept id fromClient =>
    apply Paced.append htail
    intro j hj
    obtain ⟨hin, hj⟩ := mem_beginAccept hj
    have hbegin : id = q → cfg.beginTime t ≤ s.now := by
      intro hid
      subst hid
      have htime := (of_decide_eq_true (hin cfg hcfg)).1
      omega
    rcases hj with rfl | ⟨dep, rfl⟩
    · exact ready_opening rfl hbegin (fun hn => absurd hn.symm (some_ne_none q)) rfl rfl
    · exact ready_opening rfl hbegin (fun hn => absurd hn.symm (some_ne_none q)) rfl rfl
  | cancel id fromClient =>
    unfold QuestState.exec
    simp only
    rcases beginCancel_cases t s id fromClient with he | he
    · rw [he]
      exact htail
    · rw [he]
      apply @Paced.replace _ _ _ _ _ _ _ _ (.update id (.cancel id)) [] h
      · exact fun j hj => absurd hj not_mem_nil
      · exact ⟨fun ho => absurd ho.symm (some_ne_none q), fun hn => some.inj hn⟩
      · rfl
      · exact fun _ => rfl
  | submit id rich fromClient select =>
    apply Paced.append htail
    intro j hj
    rw [mem_beginSubmit hj]
    exact ⟨⟨fun ho => absurd ho.symm (some_ne_none q), fun hn => some.inj hn⟩, rfl, rfl⟩
  | onEvent type eventId count prev =>
    apply Paced.append htail
    intro j hj
    obtain ⟨id, rfl | rfl⟩ := mem_beginEvent hj
    · exact ready_plain rfl
    · exact ⟨⟨fun ho => absurd ho.symm (some_ne_none q), fun hn => absurd hn.symm (some_ne_none q)⟩, rfl, rfl⟩
  | update id next => exact QuestState.Paces.updateQuest hcfg hperiod h
  | expire id => exact QuestState.Paces.expireQuest hcfg hperiod h
  | resume next =>
    cases next with
    | depend id =>
      apply Paced.append htail
      intro j hj
      obtain ⟨others, rfl⟩ := mem_acceptDepend hj
      exact ready_opening rfl (hopening rfl) trivial rfl rfl
    | group id other rest =>
      apply Paced.append htail
      intro j hj
      rw [mem_acceptOther hj]
      exact ready_opening rfl (hopening rfl) trivial rfl rfl
    | accept id => exact QuestState.Paces.acceptAgain hcfg hperiod hlimit h
    | cancel id => exact QuestState.Paces.cancelRest h
    | submit id rich select =>
      apply QuestState.Paces.submitRest h
      intro hid hsome x hx
      have hr := hc hid hsome x hx
      rw [countP_cons_of_neg Bool.false_ne_true] at hr
      exact hr
    | event type eventId count id => exact QuestState.Paces.recordEvent hperiod htail type eventId count id
  | acceptGroup id others =>
    cases others with
    | nil => exact QuestState.Paces.acceptNew hcfg hperiod hlimit h
    | cons other rest =>
      apply Paced.append htail
      intro j hj
      rcases mem_acceptNext hj with rfl | rfl
      · exact ready_opening rfl (hopening rfl) trivial rfl rfl
      · exact ready_opening rfl (hopening rfl) (fun hn => absurd hn.symm (some_ne_none q)) rfl rfl
  | consume m c => exact htail.take m c
  | pay id i => exact htail.payCost id i
  | finish id rich select record1 record2 => exact QuestState.Paces.finish h
  | commit id rich select => exact htail.commit id rich select
  | handlers => exact htail

end Update

theorem Paced.later (hperiod : 0 < cfg.period) {quest : Option Quest} {now now' : ℕ} {submissions : List (ℕ × ℕ)}
    (h : Paced t cfg q quest now submissions []) (hle : now ≤ now')
    (hc : ∀ x ∈ quest, x.count = 0 ∨
      if cfg.periodBegin t now' = cfg.periodBegin t now then
        x.status = questStatusCancel ∨ x.acceptTime < cfg.periodBegin t now' ∨
          timeLimitOver cfg now x = true ∨ timeLimitOver cfg now' x = false
      else x.status ≠ questStatusCancel) : Paced t cfg q quest now' submissions [] := by
  have hne : cfg.period ≠ 0 := ne_of_gt hperiod
  have hsane : ∀ x, quest = some x → Sane t cfg now' x := by
    intro x hx
    have hs := h.sane x hx
    have hac := hs.accepted
    exact ⟨hs.status, hs.count, hac.1, hac.2.1, hac.2.2.trans (by omega)⟩
  refine ⟨h.absent, hsane, ?_, h.room, fun i hi => absurd hi not_mem_nil, List.Pairwise.nil, ?_, h.bounded⟩
  · cases quest with
    | none =>
      have hnone : ∀ p, submittedIn t cfg q p submissions = 0 := by
        intro p
        apply countP_eq_zero.mpr
        intro x hx hp
        exact (h.absent rfl).1 x hx (of_decide_eq_true hp).1
      rw [hnone]
      rfl
    | some x =>
      have hs := h.sane x rfl
      have hs' := hsane x rfl
      have hbegin : cfg.beginTime t ≤ now := hs.accepted.1.trans hs.accepted.2.2
      have hnow : (now : ℤ) ≤ now' := by omega
      have hmono : cfg.periodBegin t now ≤ cfg.periodBegin t now' := by
        rw [periodBegin_eq hperiod, periodBegin_eq hperiod]
        exact periodStart_mono hperiod hbegin hnow
      by_cases hsame : cfg.periodBegin t now' = cfg.periodBegin t now
      · -- within the period
        rw [hsame, ← h.counted]
        rcases hc x rfl with h0 | hc
        · rw [countNow_zero hs h0 hne, countNow_zero hs' h0 hne]
        · rw [if_pos hsame] at hc
          by_cases hst : x.status = questStatusCancel
          · rw [countNow_upToDate (.inl hst), countNow_upToDate (.inl hst)]
          · by_cases hcur : Current t cfg now' x
            · have hcur' : Current t cfg now x := by
                refine ⟨hsame ▸ hcur.1, decide_eq_false fun hover => ?_⟩
                exact of_decide_eq_false hcur.2 ⟨hover.1, by omega⟩
              rw [countNow_upToDate (.inr hcur), countNow_upToDate (.inr hcur')]
            · have hcur' : ¬ Current t cfg now x := by
                intro hn
                rcases hc with hc | hc | hc | hc
                · exact hst hc
                · exact absurd hn.1 (not_le.mpr (hsame ▸ hc))
                · rw [hn.2] at hc
                  cases hc
                · exact hcur ⟨hsame.symm ▸ hn.1, hc⟩
              rw [countNow_stale hs (not_or.mpr ⟨hst, hcur'⟩) hne, countNow_stale hs' (not_or.mpr ⟨hst, hcur⟩) hne]
      · -- in a new period
        have hlt : (now : ℤ) < cfg.periodBegin t now' := by
          have hlt := lt_of_le_of_ne hmono (Ne.symm hsame)
          rw [periodBegin_eq hperiod, periodBegin_eq hperiod] at hlt
          rw [periodBegin_eq hperiod]
          exact lt_periodStart hperiod hbegin (hbegin.trans hnow) hlt
        have hnone : submittedIn t cfg q (cfg.periodBegin t now') submissions = 0 := by
          apply countP_eq_zero.mpr
          intro z hz hp
          obtain ⟨hzq, hzp⟩ := of_decide_eq_true hp
          obtain ⟨hzb, hzn⟩ := h.times z hz hzq
          have hzle : cfg.periodBegin t z.2 ≤ z.2 := by
            rw [periodBegin_eq hperiod]
            exact periodStart_le hperiod hzb
          omega
        rw [hnone]
        rcases hc x rfl with h0 | hc
        · exact countNow_zero hs' h0 hne
        · rw [if_neg hsame] at hc
          apply countNow_stale hs' (not_or.mpr ⟨hc, fun hcur => ?_⟩) hne
          have hac := hs.accepted
          have hcur1 := hcur.1
          omega
  · intro x hx hxq
    have htimes := h.times x hx hxq
    exact ⟨htimes.1, htimes.2.trans hle⟩

theorem Paced.withinLimit (h : s.Paces t cfg q) : WithinLimit t cfg q s := by
  have hcounted := h.counted
  unfold QuestState.Paces at h
  refine ⟨h.bounded, ?_, fun h0 => ?_⟩
  · unfold QuestState.available
    omega
  · unfold QuestState.available
    omega

theorem questStep_metered (hcfg : t.config q = some cfg) (hperiod : 0 < cfg.period) (hlimit : 0 < cfg.countLimit)
    (a : QuestAct) {s' : QuestState} (h : s.Paces t cfg q) (hc : LeavesCount t cfg q s a)
    (hs : questStep t s a = .ok s') : s'.Paces t cfg q := by
  have hcall : ∀ {b : Bool} {i : QuestInstr}, i.plain = true → (if b then s.push [i] else s).Paces t cfg q := by
    intro b i hi
    split
    · apply h.push
      intro j hj
      rw [mem_singleton.mp hj]
      exact hi
    · exact h
  cases a with
  | accept id fromClient =>
    obtain rfl := Except.ok.inj hs
    exact hcall rfl
  | cancel id fromClient =>
    obtain rfl := Except.ok.inj hs
    split
    · next hidle =>
      have hnil : s.todo = [] := List.isEmpty_iff.mp hidle
      unfold QuestState.Paces at h ⊢
      rw [hnil] at h
      have htodo : (s.push [QuestInstr.cancel id fromClient]).todo = [QuestInstr.cancel id fromClient] := by
        unfold QuestState.push
        rw [hnil]
        rfl
      rw [htodo]
      refine ⟨fun hn => ⟨(h.absent hn).1, rfl⟩, h.sane, h.counted, h.room, fun i hi => ?_, pairwise_singleton _ _,
        h.times, h.bounded⟩
      rw [mem_singleton.mp hi]
      exact ⟨fun ho => absurd ho.symm (some_ne_none q), trivial⟩
    · exact h
  | submit id rich fromClient select =>
    obtain rfl := Except.ok.inj hs
    exact hcall rfl
  | onEvent type eventId count =>
    obtain rfl := Except.ok.inj hs
    exact hcall rfl
  | inventory inv =>
    obtain rfl := Except.ok.inj hs
    split
    · exact h
    · exact h
  | time now =>
    obtain rfl := Except.ok.inj hs
    split
    · next hidle =>
      have hnil : s.todo = [] := List.isEmpty_iff.mp hidle.1
      unfold QuestState.Paces at h ⊢
      simp only
      rw [hnil] at h ⊢
      exact h.later hperiod hidle.2 (hc hidle.2)
    · exact h
  | tick v =>
    unfold questStep at hs
    cases htodo : s.todo with
    | nil =>
      rw [htodo] at hs
      obtain rfl := Except.ok.inj hs
      exact h
    | cons i rest =>
      rw [htodo] at hs
      obtain rfl := Except.ok.inj hs
      obtain ⟨quests, inventory, now, todo, ledger, submissions⟩ := s
      simp only at htodo
      subst htodo
      exact @exec_metered t cfg q v ⟨quests, inventory, now, rest, ledger, submissions⟩ hcfg hperiod hlimit i h hc

end Steps

theorem start_paces (hlimit : 0 < cfg.countLimit) (q : ℕ) {quests : List Quest}
    (hnew : lookup Quest.id q quests = none) (inventory : Inventory) (now : ℕ) :
    (QuestState.start quests inventory now).Paces t cfg q := by
  have hnone : (QuestState.start quests inventory now).find q = none := hnew
  unfold QuestState.Paces
  rw [hnone]
  exact ⟨fun _ => ⟨fun _ hx => absurd hx not_mem_nil, rfl⟩, fun x hx => absurd hx.symm (some_ne_none x), rfl,
    fun x hx => absurd hx.symm (some_ne_none x), fun _ hi => absurd hi not_mem_nil, List.Pairwise.nil,
    fun _ hx => absurd hx not_mem_nil, fun _ => le_of_lt hlimit⟩

/-- From a player who has not accepted the quest yet on, in every run whose steps leave a quest with a period and a
limit its count, its submissions stay within the limit in every period, and the rest of the limit is available. -/
theorem quest_period_limit (q : ℕ) (cfg : QuestConfig) (hcfg : t.config q = some cfg)
    (hperiod : 0 < cfg.period) (hlimit : 0 < cfg.countLimit) (quests : List Quest)
    (hnew : lookup Quest.id q quests = none) (inventory : Inventory) (now : ℕ) (acts : List QuestAct)
    (h : Along (questStep t) (LeavesCount t cfg q) (QuestState.start quests inventory now) acts) :
    Throughout (questStep t) (WithinLimit t cfg q) (QuestState.start quests inventory now) acts := by
  apply run_throughout (fun _ hs => Paced.withinLimit hs)
    (fun _ a _ hs hc => questStep_metered hcfg hperiod hlimit a hs hc) acts _
    (start_paces t cfg hlimit q hnew inventory now) h

/-! ## A daily quest -/

def dailyQuest (timeLimit : ℤ) : QuestConfig :=
  { plainQuest with
    period := 86400
    countLimit := 2
    countLimit_lt := by decide
    timeLimit := timeLimit }

def oneRound : List QuestAct := .accept 7 true :: ticks 6 ++ .submit 7 false true 0 :: ticks 16

theorem quest_period_limit_two_days :
    Throughout (questStep (oneQuest (dailyQuest 0))) (WithinLimit (oneQuest (dailyQuest 0)) (dailyQuest 0) 7)
      (QuestState.start [] (itemFive 0) 1000) (oneRound ++ oneRound ++ .time 90000 :: oneRound) := by
  apply quest_period_limit (oneQuest (dailyQuest 0)) 7 (dailyQuest 0) rfl (by decide) (by decide) [] rfl (itemFive 0) 1000
  decide +kernel

def dailyStart : QuestState := QuestState.start [] (itemFive 0) 1000

def DailyWithinLimit (timeLimit : ℤ) (acts : List QuestAct) : Prop :=
  Throughout (questStep (oneQuest (dailyQuest timeLimit)))
    (WithinLimit (oneQuest (dailyQuest timeLimit)) (dailyQuest timeLimit) 7) dailyStart acts

/-- The end of a run of it: the submissions in the period, and what is available. -/
def dailyEnd (timeLimit : ℤ) (acts : List QuestAct) : Except Fault (ℕ × ℤ) :=
  (run (questStep (oneQuest (dailyQuest timeLimit))) dailyStart acts).map fun s =>
    (submittedIn (oneQuest (dailyQuest timeLimit)) (dailyQuest timeLimit) 7
      ((dailyQuest timeLimit).periodBegin (oneQuest (dailyQuest timeLimit)) s.now) s.submissions,
      s.available (oneQuest (dailyQuest timeLimit)) (dailyQuest timeLimit) 7)

theorem dailyEnd_sum {timeLimit : ℤ} {acts : List QuestAct} {n : ℕ} {a : ℤ} (h : dailyEnd timeLimit acts = .ok (n, a))
    (hw : DailyWithinLimit timeLimit acts) : a + n = 2 := by
  unfold dailyEnd at h
  cases hrun : run (questStep (oneQuest (dailyQuest timeLimit))) dailyStart acts with
  | error f =>
    rw [hrun] at h
    cases h
  | ok s =>
    rw [hrun] at h
    have h' := ok_pair_inj h
    have hlast := (hw.last hrun).available
    rw [h'.1, h'.2] at hlast
    exact hlast

/-- A quest with a count cancelled by the player on one day leaves one submission for the next. With a time limit
of an hour, a quest submitted twice can be submitted twice again after it, on the same day. -/
theorem questPeriod_limit_missed :
    (dailyEnd 0 (oneRound ++ .accept 7 true :: ticks 6 ++ .cancel 7 true :: ticks 4 ++ [.time 90000]) = .ok (0, 1) ∧
      ¬ DailyWithinLimit 0 (oneRound ++ .accept 7 true :: ticks 6 ++ .cancel 7 true :: ticks 4 ++ [.time 90000])) ∧
      dailyEnd 3600 (oneRound ++ oneRound ++ .time 5000 :: oneRound ++ oneRound) = .ok (4, 0) ∧
        ¬ DailyWithinLimit 3600 (oneRound ++ oneRound ++ .time 5000 :: oneRound ++ oneRound) := by
  have h1 : dailyEnd 0 (oneRound ++ .accept 7 true :: ticks 6 ++ .cancel 7 true :: ticks 4 ++ [.time 90000]) = .ok (0, 1) := by
    decide +kernel
  have h2 : dailyEnd 3600 (oneRound ++ oneRound ++ .time 5000 :: oneRound ++ oneRound) = .ok (4, 0) := by
    decide +kernel
  refine ⟨⟨h1, fun hw => ?_⟩, h2, fun hw => ?_⟩
  · exact absurd (dailyEnd_sum h1 hw) (by decide)
  · exact absurd (dailyEnd_sum h2 hw) (by decide)

end CServer.Logic
