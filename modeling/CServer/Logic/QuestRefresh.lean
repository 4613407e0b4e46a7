import CServer.Logic.QuestReward
import Mathlib.Data.Finset.Card
import Mathlib.Data.Finset.Insert

/-! # `world/logic/aL.c`: the refresh of quests comes to an end

`aL_quest_accept` brings the quest depended on and all quests of the group up to date, and `aL_update_quest_status` accepts
a quest again that it has just cancelled. Costs raise no events here.

A quest is accepted by a refresh only after the refresh has cancelled it, and it stays cancelled until that call is about
to return. So there are fewer quests that are not cancelled the deeper the calls go, whatever the tables and the times.
-/
namespace CServer.Logic
open CServer.Lib CServer.Modules

/-! ## Without events -/

variable (t : QuestTable)

variable (v : PlayerView)

variable (s : QuestState)

def QuestState.execQuiet : QuestInstr → QuestState
  | .consume m c => { s with inventory := deduct t m s.inventory c }
  | i => s.exec t v i

def quietTick : QuestState :=
  match s.todo with
  | [] => s
  | i :: rest => { s with todo := rest }.execQuiet t v i

theorem questStep_quiet
    (h : ∀ m c rest, s.todo = .consume m c :: rest →
      QuestState.itemEvents s.inventory (deduct t m s.inventory c) (deductedItem t s.inventory c.cost) = []) :
    questStep t s (.tick v) = .ok (quietTick t v s) := by
  rw [questStep, quietTick]
  cases htodo : s.todo with
  | nil => rfl
  | cons i rest =>
    cases i with
    | consume m c =>
      simp only [QuestState.exec, QuestState.execQuiet, QuestState.take, h m c rest htodo]
      rfl
    | _ => rfl

/-! ## The quests that are not cancelled -/

def QuestState.openIds : Finset ℕ :=
  ((s.quests.filter fun q => decide (q.status ≠ questStatusCancel)).map Quest.id).toFinset

def StatusWords : Prop := ∀ q ∈ s.quests, 0 ≤ q.status ∧ q.status < 2 ^ 32

section Open
variable {t : QuestTable} {v : PlayerView} {s : QuestState} {id : ℕ}

theorem mem_openIds {k : ℕ} : k ∈ s.openIds ↔ ∃ q ∈ s.quests, q.status ≠ questStatusCancel ∧ q.id = k := by
  simp [QuestState.openIds, and_assoc]

theorem openIds_congr {s' : QuestState} (h : s'.quests = s.quests) : s'.openIds = s.openIds := by
  rw [QuestState.openIds, h, QuestState.openIds]

theorem openIds_setQuest {f : Quest → Quest} (hid : ∀ q, (f q).id = q.id) {k : ℕ} (hk : k ∈ (s.setQuest id f).openIds) :
    k ∈ s.openIds ∧ k ≠ id ∨ k = id ∧ ∃ q ∈ s.quests, q.id = id ∧ (f q).status ≠ questStatusCancel := by
  obtain ⟨q', hq', hopen, rfl⟩ := mem_openIds.mp hk
  obtain ⟨q, hq, rfl⟩ := List.mem_map.mp hq'
  by_cases hqid : q.id = id
  · rw [if_pos hqid] at hopen ⊢
    exact .inr ⟨(hid q).trans hqid, q, hq, hqid, hopen⟩
  · rw [if_neg hqid] at hopen ⊢
    exact .inl ⟨mem_openIds.mpr ⟨q, hq, hopen, rfl⟩, hqid⟩

theorem openIds_set_subset {f : Quest → Quest} (hid : ∀ q, (f q).id = q.id) :
    (s.setQuest id f).openIds ⊆ insert id s.openIds := by
  intro k hk
  obtain ⟨hk, _⟩ | ⟨rfl, _⟩ := openIds_setQuest hid hk
  · exact Finset.mem_insert_of_mem hk
  · exact Finset.mem_insert_self k _

theorem StatusWords.set (hw : StatusWords s) {f : Quest → Quest}
    (hf : ∀ q, 0 ≤ q.status ∧ q.status < 2 ^ 32 → 0 ≤ (f q).status ∧ (f q).status < 2 ^ 32) :
    StatusWords (s.setQuest id f) := by
  intro q' hq'
  obtain ⟨q, hq, rfl⟩ := List.mem_map.mp hq'
  split
  · exact hf q (hw q hq)
  · exact hw q hq

theorem resetQuest_cancel {q : Quest} (hq : 0 ≤ q.status ∧ q.status < 2 ^ 32) :
    (resetQuest q).status = questStatusCancel := by
  show (tryUpdate questStatusCancel q.status).1 = questStatusCancel
  rw [tryUpdate]
  split
  · rfl
  · next h =>
    unfold toInt questStatusCancel at *
    show q.status = 2
    omega

theorem reset_closes (hw : StatusWords s) (id : ℕ) :
    (s.setQuest id resetQuest).openIds ⊆ s.openIds.erase id ∧ StatusWords (s.setQuest id resetQuest) := by
  have hid : ∀ q, (resetQuest q).id = q.id := fun _ => rfl
  refine ⟨fun k hk => ?_, StatusWords.set hw fun q hq => ?_⟩
  · obtain ⟨hk, hne⟩ | ⟨_, q, hq, _, hstays⟩ := openIds_setQuest hid hk
    · exact Finset.mem_erase.mpr ⟨hne, hk⟩
    · exact absurd (resetQuest_cancel (hw q hq)) hstays
  · rw [resetQuest_cancel hq]
    exact ⟨by decide, by decide⟩

theorem kept_closes (hw : StatusWords s) (id : ℕ) {f : Quest → Quest} (hid : ∀ q, (f q).id = q.id)
    (hkept : ∀ q, 0 ≤ q.status ∧ q.status < 2 ^ 32 → (f q).status = q.status ∨ (f q).status = questStatusCancel) :
    (s.setQuest id f).openIds ⊆ s.openIds ∧ StatusWords (s.setQuest id f) := by
  refine ⟨fun k hk => ?_, StatusWords.set hw fun q hq => ?_⟩
  · obtain ⟨hk, _⟩ | ⟨rfl, q, hq, hqid, hopen⟩ := openIds_setQuest hid hk
    · exact hk
    · obtain h | h := hkept q (hw q hq)
      · rw [h] at hopen
        exact mem_openIds.mpr ⟨q, hq, hopen, hqid⟩
      · exact absurd h hopen
  · obtain h | h := hkept q hq
    · rwa [h]
    · rw [h]
      decide

theorem checkTimeLimit_kept (cfg : QuestConfig) (now : ℤ) {q : Quest} (hq : 0 ≤ q.status ∧ q.status < 2 ^ 32) :
    (checkTimeLimit cfg now q).status = q.status ∨ (checkTimeLimit cfg now q).status = questStatusCancel := by
  rw [checkTimeLimit]
  split
  · exact .inr (resetQuest_cancel hq)
  · exact .inl rfl

theorem updateStatus_kept (cfg : QuestConfig) (now : ℤ) {q : Quest} (hq : 0 ≤ q.status ∧ q.status < 2 ^ 32) :
    (updateQuestStatus t cfg now q).status = q.status ∨ (updateQuestStatus t cfg now q).status = questStatusCancel := by
  have hcancel := resetQuest_cancel hq
  rw [updateQuestStatus]
  split
  · exact .inl rfl
  · split
    · obtain h | h := checkTimeLimit_kept cfg now (q := resetQuest q) (by rw [hcancel]; decide)
      · exact .inr (h.trans hcancel)
      · exact .inr h
    · exact checkTimeLimit_kept cfg now hq

theorem openQuest_word (now : ℤ) {q : Quest} (hq : 0 ≤ q.status ∧ q.status < 2 ^ 32) :
    0 ≤ (QuestState.openQuest now q).status ∧ (QuestState.openQuest now q).status < 2 ^ 32 := by
  show 0 ≤ (tryUpdate questStatusInit q.status).1 ∧ (tryUpdate questStatusInit q.status).1 < 2 ^ 32
  rw [tryUpdate]
  split
  · decide
  · exact hq

end Open

/-! ## Calls that return -/

/-- What is on top of `rest` comes to its end, and no quests outside `ids` are left that are not cancelled. -/
def Ends (rest : List QuestInstr) (ids : Finset ℕ) : Prop :=
  ∃ n, ((quietTick t v)^[n] s).todo = rest ∧ ((quietTick t v)^[n] s).openIds ⊆ ids ∧ StatusWords ((quietTick t v)^[n] s)

/-- With at most `n` quests that are not cancelled, a refresh returns, and there are no others afterwards. -/
def RefreshEnds (n : ℕ) : Prop :=
  ∀ s id next rest, s.todo = .update id next :: rest → StatusWords s → s.openIds.card ≤ n →
    Ends t v s (.resume next :: rest) s.openIds

section Ends
variable {t : QuestTable} {v : PlayerView} {s : QuestState} {id n : ℕ} {rest mid : List QuestInstr} {ids ids' : Finset ℕ}

theorem Ends.here (hrest : s.todo = rest) (hids : s.openIds ⊆ ids) (hw : StatusWords s) : Ends t v s rest ids :=
  ⟨0, hrest, hids, hw⟩

theorem Ends.tick (h : Ends t v (quietTick t v s) rest ids) : Ends t v s rest ids := by
  obtain ⟨n, h⟩ := h
  exact ⟨n + 1, h⟩

theorem Ends.trans (h : Ends t v s mid ids)
    (h' : ∀ s', s'.todo = mid → s'.openIds ⊆ ids → StatusWords s' → Ends t v s' rest ids') : Ends t v s rest ids' := by
  obtain ⟨n, htodo, hids, hw⟩ := h
  obtain ⟨m, h⟩ := h' _ htodo hids hw
  refine ⟨m + n, ?_⟩
  rw [Function.iterate_add_apply]
  exact h

theorem Ends.mono (h : Ends t v s rest ids) (hids : ids ⊆ ids') : Ends t v s rest ids' :=
  h.trans fun _ htodo hs hw => .here htodo (hs.trans hids) hw

theorem Ends.push {i : QuestInstr} {is : List QuestInstr} (htodo : s.todo = i :: rest)
    (hexec : ({ s with todo := rest } : QuestState).execQuiet t v i = ({ s with todo := rest } : QuestState).push is)
    (h : Ends t v { s with todo := is ++ rest } mid ids) : Ends t v s mid ids := by
  apply Ends.tick
  rw [quietTick, htodo]
  dsimp only
  rw [hexec]
  exact h

theorem consumes_end (m : QuestMoment) (cs : List QuestConsume) (htodo : s.todo = cs.map (.consume m) ++ rest)
    (hw : StatusWords s) : Ends t v s rest s.openIds := by
  induction cs generalizing s with
  | nil => exact .here htodo subset_rfl hw
  | cons c cs ih =>
    apply Ends.tick
    rw [quietTick, htodo]
    exact @ih ({ s with todo := cs.map (.consume m) ++ rest, inventory := deduct t m s.inventory c }) rfl hw

theorem consumes_of_end (m : QuestMoment) (htodo : s.todo = QuestState.consumes t m id ++ rest) (hw : StatusWords s) :
    Ends t v s rest s.openIds := by
  rw [QuestState.consumes] at htodo
  cases hcfg : t.config id with
  | none =>
    rw [hcfg] at htodo
    exact .here htodo subset_rfl hw
  | some cfg =>
    rw [hcfg] at htodo
    exact consumes_end m cfg.consume htodo hw

theorem acceptAgain_ends (htodo : s.todo = .resume (.accept id) :: rest) (hw : StatusWords s) :
    Ends t v s rest (insert id s.openIds) := by
  apply Ends.tick
  rw [quietTick, htodo]
  show Ends t v (QuestState.acceptAgain t { s with todo := rest } id) rest _
  rw [QuestState.acceptAgain]
  split
  · have hopen := @openIds_set_subset { s with todo := rest } id (QuestState.openQuest s.now) fun _ => rfl
    refine (consumes_of_end .accept rfl ?_).mono hopen
    exact StatusWords.set hw fun q hq => openQuest_word s.now hq
  · exact .here rfl (Finset.subset_insert _ _) hw

theorem acceptNew_ends (hupdate : RefreshEnds t v n) (htodo : s.todo = .acceptGroup id [] :: rest) (hw : StatusWords s)
    (hn : s.openIds.card ≤ n) : Ends t v s rest (insert id s.openIds) := by
  apply Ends.tick
  rw [quietTick, htodo]
  show Ends t v (QuestState.acceptNew t { s with todo := rest } id) rest _
  rw [QuestState.acceptNew]
  split
  · refine (hupdate { s with todo := .update id (.accept id) :: rest } id (.accept id) rest rfl hw hn).trans fun s' htodo' hids' hw' => ?_
    exact (acceptAgain_ends htodo' hw').mono (Finset.insert_subset_insert id hids')
  · have hnew : StatusWords { s with quests := s.quests ++ [s.newQuest id] } := by
      intro q hq
      obtain hq | hq := List.mem_append.mp hq
      · exact hw q hq
      · rw [List.mem_singleton.mp hq]
        exact ⟨le_rfl, show (0 : ℤ) < 2 ^ 32 by decide⟩
    refine Ends.mono (@consumes_of_end t v _ id rest .accept rfl hnew) fun k hk => ?_
    obtain ⟨q, hq, hopen, rfl⟩ := mem_openIds.mp hk
    obtain hq | hq := List.mem_append.mp hq
    · exact Finset.mem_insert_of_mem (mem_openIds.mpr ⟨q, hq, hopen, rfl⟩)
    · rw [List.mem_singleton.mp hq]
      exact Finset.mem_insert_self id _

theorem acceptGroup_ends (hupdate : RefreshEnds t v n) (others : List ℕ) (htodo : s.todo = .acceptGroup id others :: rest)
    (hw : StatusWords s) (hn : s.openIds.card ≤ n) : Ends t v s rest (insert id s.openIds) := by
  induction others generalizing s with
  | nil => exact acceptNew_ends hupdate htodo hw hn
  | cons other others ih =>
    refine Ends.push htodo rfl ?_
    rw [QuestState.acceptNext]
    split
    · exact ih rfl hw hn
    · split
      · exact ih rfl hw hn
      · refine (hupdate { s with todo := .update other (.group id other others) :: rest } other _ rest rfl hw hn).trans fun s' htodo' hids' hw' => ?_
        refine Ends.push htodo' rfl ?_
        rw [QuestState.acceptOther]
        have hn' := (Finset.card_le_card hids').trans hn
        have hgo : ∀ s'' : QuestState, s''.todo = .acceptGroup id others :: rest → s''.quests = s'.quests →
            Ends t v s'' rest (insert id s.openIds) := by
          intro s'' htodo'' hsame
          have hids'' := (openIds_congr hsame).trans_subset hids'
          refine (ih htodo'' (by rw [StatusWords, hsame]; exact hw') ((Finset.card_le_card hids'').trans hn)).mono ?_
          exact Finset.insert_subset_insert id hids''
        split
        · exact hgo _ rfl rfl
        · split
          · exact .here rfl (hids'.trans (Finset.subset_insert _ _)) hw'
          · exact hgo _ rfl rfl

theorem accept_ends (hupdate : RefreshEnds t v n) {fromClient : Bool} (htodo : s.todo = .accept id fromClient :: rest)
    (hw : StatusWords s) (hn : s.openIds.card ≤ n) : Ends t v s rest (insert id s.openIds) := by
  -- after the quest depended on
  have hdepend : ∀ s' : QuestState, s'.todo = .resume (.depend id) :: rest → s'.openIds ⊆ s.openIds → StatusWords s' →
      Ends t v s' rest (insert id s.openIds) := by
    intro s' htodo' hids' hw'
    refine Ends.push htodo' rfl ?_
    have hback := hids'.trans (Finset.subset_insert id s.openIds)
    rw [QuestState.acceptDepend]
    split
    · exact .here rfl hback hw'
    · split
      · exact .here rfl hback hw'
      · split
        · exact .here rfl hback hw'
        · split
          · exact .here rfl hback hw'
          · refine Ends.mono (acceptGroup_ends hupdate _ rfl hw' ((Finset.card_le_card hids').trans hn)) ?_
            exact Finset.insert_subset_insert id hids'
  refine Ends.push htodo rfl ?_
  have hback := Finset.subset_insert id s.openIds
  rw [QuestState.beginAccept]
  split
  · exact .here rfl hback hw
  · split
    · exact .here rfl hback hw
    · split
      · exact .here rfl hback hw
      · split
        · exact .here rfl hback hw
        · split
          · exact .here rfl hback hw
          · split
            · exact hdepend _ rfl subset_rfl hw
            · split
              · exact .here rfl hback hw
              · exact (hupdate { s with todo := .update _ (.depend id) :: rest } _ (.depend id) rest rfl hw hn).trans hdepend

theorem expire_ends (htodo : s.todo = .expire id :: rest) (hw : StatusWords s) : Ends t v s rest s.openIds := by
  apply Ends.tick
  rw [quietTick, htodo]
  show Ends t v (QuestState.expireQuest t { s with todo := rest } id) rest _
  rw [QuestState.expireQuest]
  split
  · exact .here rfl subset_rfl hw
  · next cfg _ =>
    obtain ⟨hids, hw'⟩ := kept_closes hw id (checkTimeLimit_id cfg s.now) fun q hq => checkTimeLimit_kept cfg s.now hq
    exact .here rfl hids hw'

theorem update_ends (hless : ∀ m < n, RefreshEnds t v m) : RefreshEnds t v n := by
  intro s id next rest htodo hw hn
  apply Ends.tick
  rw [quietTick, htodo]
  show Ends t v (QuestState.updateQuest t { s with todo := rest } id next) _ _
  rw [QuestState.updateQuest]
  split
  · next quest cfg hquest _ =>
    split
    · next hauto =>
      obtain ⟨hmem, hid⟩ := lookup_some hquest
      have hopen : id ∈ s.openIds := mem_openIds.mpr ⟨quest, hmem, hauto.1, hid⟩
      obtain ⟨hreset, hw'⟩ := reset_closes hw id
      have hcard := (Finset.card_le_card hreset).trans_lt (Finset.card_erase_lt_of_mem hopen)
      have hback : insert id (s.setQuest id resetQuest).openIds ⊆ s.openIds :=
        Finset.insert_subset hopen (hreset.trans (Finset.erase_subset id _))
      -- the quest is cancelled while it is accepted again
      refine Ends.trans (accept_ends (hless _ (hcard.trans_le hn)) rfl hw' le_rfl) fun s' htodo' hids' hw'' => ?_
      exact (expire_ends htodo' hw'').mono (hids'.trans hback)
    · obtain ⟨hids, hw'⟩ := kept_closes hw id (updateQuestStatus_id cfg s.now) fun q hq => updateStatus_kept cfg s.now hq
      exact .here rfl hids hw'
  · exact .here rfl subset_rfl hw

theorem refresh_ends (t : QuestTable) (v : PlayerView) (n : ℕ) : RefreshEnds t v n := by
  induction n using Nat.strong_induction_on with
  | h n ih => exact update_ends ih

end Ends

/-- Whatever the table, the quests and what is left to do, `aL_quest_accept` and `aL_update_quest_status` return. -/
theorem questRefresh_ends (hw : StatusWords s) (id : ℕ)
    (rest : List QuestInstr) :
    (∀ fromClient, ∃ n, ((quietTick t v)^[n] { s with todo := .accept id fromClient :: rest }).todo = rest) ∧
      ∀ next, ∃ n, ((quietTick t v)^[n] { s with todo := .update id next :: rest }).todo = .resume next :: rest := by
  constructor
  · intro fromClient
    obtain ⟨n, htodo, _⟩ := accept_ends (refresh_ends t v s.openIds.card)
      (s := { s with todo := .accept id fromClient :: rest }) rfl hw le_rfl
    exact ⟨n, htodo⟩
  · intro next
    obtain ⟨n, htodo, _⟩ := refresh_ends t v s.openIds.card { s with todo := .update id next :: rest } id next rest rfl hw le_rfl
    exact ⟨n, htodo⟩

def cycleQuest (other : ℕ) : QuestConfig :=
  { plainQuest with group := 1, autoAccept := 1, dependQuest := other, period := 86400 }

def cycleTable : QuestTable :=
  { oneQuest plainQuest with
    config := fun id => if id = 7 then some (cycleQuest 8) else if id = 8 then some (cycleQuest 7) else none
    group := fun _ => [7, 8] }

def yesterday : QuestState :=
  QuestState.start [⟨0, 7, 0, 0, 0, 1, 0, 0, 1000, 0, 0⟩, ⟨1, 8, 0, 0, 0, 1, 0, 0, 1000, 0, 0⟩] (itemFive 0) 90000

theorem questRefresh_ends_cycle : StatusWords yesterday ∧
    ∃ n, ((quietTick cycleTable plainView)^[n] { yesterday with todo := [.accept 7 true] }).todo = [] := by
  have hw : StatusWords yesterday := by
    unfold StatusWords
    decide
  exact ⟨hw, (questRefresh_ends cycleTable plainView yesterday hw 7 []).1 true⟩

end CServer.Logic
