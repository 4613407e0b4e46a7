import CServer.Logic.QuestStep

/-! # `world/logic/aL.c`: the rewards of quests

A submission checks the quest and its costs, deducts the costs, sets the status and the count and commits
the reward. The status is set when the costs are already deducted, and the events of the deduction may
submit the same quest from where the first submission has only got to.
-/
namespace CServer.Logic
open CServer.Lib CServer.Modules Function List

def QuestInstr.submitting : QuestInstr → Option ℕ
  | .pay id _ => some id
  | .finish id _ _ _ _ => some id
  | .commit id _ _ => some id
  | _ => none

/-- No submission of the quest is between its checks and its reward. -/
def QuestState.Settled (q : ℕ) (todo : List QuestInstr) : Prop := ∀ i ∈ todo, i.submitting ≠ some q

/-- Every reward has its increment of the count and its deductions, and there is at most one since the quest came
into `QUEST_STATUS_INIT`; while nothing of a submission is left to do, there is nothing but these. -/
structure RewardedOnce (t : QuestTable) (q : ℕ) (s : QuestState) : Prop where
  once : (s.ledger q).rewards.length ≤ 1
  counted : (s.ledger q).rewards.length ≤ (s.ledger q).increments
  deducted : ∀ i c, QuestState.costOf t q i = some c → c.onSubmit = true →
    (s.ledger q).rewards.length ≤ (s.ledger q).deductions i
  settled : QuestState.Settled q s.todo → (s.ledger q).increments = (s.ledger q).rewards.length ∧
    ∀ i c, QuestState.costOf t q i = some c → c.onSubmit = true →
      (s.ledger q).deductions i = (s.ledger q).rewards.length

/-- The inventory covers the cost, which is one of items or of hero items or asks for nothing; the costs of an
AI player are waived. What is to be cleaned can be removed. -/
def QuestConsume.Payable (t : QuestTable) (inv : Inventory) (c : QuestConsume) : Prop :=
  if c.clean .submit then
    inv.worth c.cost = 0 ∨ c.cost.type = rewardTypeItem ∨
      c.cost.type = rewardTypeHeroItem ∧ inv.worth c.cost < 2 ^ 31
  else
    c.cost.Void ∨ c.cost.value = 0 ∨ aiMaxId < t.pid ∧ c.cost.value ≤ inv.worth c.cost ∧
      (c.cost.type = rewardTypeItem ∨ c.cost.type = rewardTypeHeroItem ∧ c.cost.value < 2 ^ 31)

/-- No submission of the quest passes its checks, and the quest does not come into `QUEST_STATUS_INIT`, while another one is
between its checks and its reward; every cost of submitting it is covered when deducted; and the count is not the largest
`int`. -/
def SubmitsAlone (t : QuestTable) (q : ℕ) (s : QuestState) : QuestAct → Prop
  | .tick v =>
    match s.todo with
    | .resume (.accept id) :: _ => id = q → s.opens t q = true → QuestState.Settled q s.todo
    | .resume (.submit id _ _) :: _ => id = q → (s.checkSubmit t v q).isSome → QuestState.Settled q s.todo
    | .pay id i :: _ => id = q → ∀ c ∈ QuestState.costOf t q i, c.onSubmit = true → c.Payable t s.inventory
    | .finish id _ _ _ _ :: _ => id = q → ∀ quest ∈ s.find q, 0 ≤ quest.count ∧ quest.count < 2 ^ 31 - 1
    | _ => True
  | _ => True

instance (q : ℕ) (todo : List QuestInstr) : Decidable (QuestState.Settled q todo) := List.decidableBAll _ todo

instance (t : QuestTable) (inv : Inventory) (c : QuestConsume) : Decidable (c.Payable t inv) := by
  unfold QuestConsume.Payable Cost.Void
  infer_instance

instance (t : QuestTable) (q : ℕ) (s : QuestState) (a : QuestAct) : Decidable (SubmitsAlone t q s a) := by
  unfold SubmitsAlone
  split
  · split <;> infer_instance
  · infer_instance

/-! ## What is deducted in full -/

section Full
variable {t : QuestTable} {inv : Inventory}

theorem worth_some {inv : Inventory} {c : Cost} {x : Good} (h : goodOf 0 c.type c.id = some x) : inv.worth c = inv.count x := by
  unfold Inventory.worth
  rw [h]

theorem goodOf_item (uuid id : ℕ) : goodOf uuid rewardTypeItem id = some (.item id) := if_pos rfl

theorem goodOf_heroItem (uuid id : ℕ) : goodOf uuid rewardTypeHeroItem id = some (.heroItem uuid id) := rfl

theorem heroItemRemove_ok {uuid id n : ℕ} (hn : n ≤ inv.heroItemCount uuid id) (hlt : n < 2 ^ 31) :
    (inv.heroItemRemove uuid id n).1 = 0 := by
  have hint : ¬ toInt n < 0 := by
    unfold toInt
    omega
  unfold Inventory.heroItemRemove
  rw [if_neg hint]
  by_cases h0 : n = 0
  · rw [if_pos h0]
  · rw [if_neg h0]
    unfold Inventory.heroItemCount at hn
    cases hg : inv.heroItemGet uuid id with
    | none =>
      rw [hg, Option.getD_none] at hn
      omega
    | some count =>
      rw [hg, Option.getD_some] at hn
      simp only
      rw [if_neg (by omega)]

theorem clean_full {c : Cost} (h : inv.worth c = 0 ∨ c.type = rewardTypeItem ∨
    c.type = rewardTypeHeroItem ∧ inv.worth c < 2 ^ 31) : (tryConsumeAll inv c).worth c = 0 := by
  unfold tryConsumeAll
  by_cases hi : c.type = rewardTypeItem
  · have hg : goodOf 0 c.type c.id = some (.item c.id) := by rw [hi, goodOf_item]
    rw [if_pos hi, worth_some hg]
    cases hl : inv.item c.id with
    | none =>
      simp only [Inventory.count, hl, Option.getD_none, Nat.cast_zero]
    | some limit =>
      simp only
      rw [count_itemRemove hl (le_refl _), if_pos rfl]
      simp only [Inventory.count, hl, Option.getD_some, sub_self]
  · rw [if_neg hi]
    by_cases hh : c.type = rewardTypeHeroItem
    · have hg : goodOf 0 c.type c.id = some (.heroItem 0 c.id) := by rw [hh, goodOf_heroItem]
      rw [worth_some hg] at h ⊢
      rw [if_pos hh]
      have hlt : inv.heroItemCount 0 c.id < 2 ^ 31 := by
        simp only [Inventory.count] at h
        rcases h with h | h | h
        · omega
        · exact absurd h hi
        · omega
      have hcount := @count_heroItemRemove inv 0 c.id (inv.heroItemCount 0 c.id) (.heroItem 0 c.id)
      rw [if_pos ⟨heroItemRemove_ok (le_refl _) hlt, rfl⟩] at hcount
      simp only [Inventory.count] at hcount ⊢
      omega
    · rw [if_neg hh]
      rcases h with h | h | h
      · exact h
      · exact absurd h hi
      · exact absurd h.1 hh

theorem consume_full {c : Cost} (hv : ¬ c.Void) (h : c.value = 0 ∨ aiMaxId < t.pid ∧ c.value ≤ inv.worth c ∧
    (c.type = rewardTypeItem ∨ c.type = rewardTypeHeroItem ∧ c.value < 2 ^ 31)) :
    (checkAndConsume t.packages t.pid inv 0 c).2.worth c + c.value = inv.worth c := by
  unfold Cost.Void at hv
  unfold checkAndConsume
  rw [if_neg hv]
  by_cases hpid : t.pid ≤ aiMaxId
  · rw [if_pos hpid]
    rcases h with h | h
    · simp only [h, Nat.cast_zero, add_zero]
    · omega
  · rw [if_neg hpid]
    by_cases hi : c.type = rewardTypeItem
    · have hg : goodOf 0 c.type c.id = some (.item c.id) := by rw [hi, goodOf_item]
      rw [if_pos hi, worth_some hg, worth_some hg]
      rw [worth_some hg] at h
      cases hl : inv.item c.id with
      | none =>
        simp only [Inventory.count, hl, Option.getD_none] at h ⊢
        omega
      | some limit =>
        simp only [Inventory.count, hl, Option.getD_some] at h ⊢
        split
        · simp only [hl, Option.getD_some]
          omega
        · have hcount := count_itemRemove hl (by omega : c.value ≤ limit) (.item c.id)
          rw [if_pos rfl] at hcount
          simp only [Inventory.count, hl, Option.getD_some] at hcount ⊢
          omega
    · rw [if_neg hi]
      rcases Nat.eq_zero_or_pos c.value with h0 | hpos
      · rw [if_neg (fun hc => by omega), if_neg (fun hc => by omega)]
        simp only [h0, Nat.cast_zero, add_zero]
      · obtain ⟨-, hle, hh⟩ := h.resolve_left (by omega)
        obtain ⟨hh, hlt⟩ := hh.resolve_left hi
        have hg : goodOf 0 c.type c.id = some (.heroItem 0 c.id) := by rw [hh, goodOf_heroItem]
        rw [worth_some hg] at hle
        rw [if_pos ⟨hh, hpos⟩, worth_some hg, worth_some hg]
        have hok : (inv.heroItemRemove 0 c.id c.value).1 = 0 := by
          apply heroItemRemove_ok _ hlt
          simp only [Inventory.count] at hle
          omega
        have hcount := @count_heroItemRemove inv 0 c.id c.value (.heroItem 0 c.id)
        rw [if_pos ⟨hok, rfl⟩] at hcount
        generalize inv.heroItemRemove 0 c.id c.value = r at hok hcount
        obtain ⟨ret, inv'⟩ := r
        simp only at hok hcount ⊢
        rw [if_neg (not_ne_iff.mpr hok)]
        exact hcount

theorem payable_full {c : QuestConsume} (hon : c.onSubmit = true) (h : c.Payable t inv) :
    c.Full inv (deduct t .submit inv c) := by
  unfold QuestConsume.onSubmit at hon
  simp only [Bool.and_eq_true, Bool.or_eq_true, decide_eq_true_eq] at hon
  unfold QuestConsume.Payable at h
  unfold QuestConsume.Full deduct
  rw [if_neg hon.1]
  by_cases hc : c.clean .submit = true
  · rw [if_pos hc] at h
    rw [if_pos hc, if_pos hc]
    exact clean_full h
  · rw [if_neg hc] at h
    rw [if_neg hc, if_neg hc, if_pos (hon.2.resolve_left hc)]
    by_cases hv : c.cost.Void
    · exact .inl hv
    · exact .inr (consume_full hv (h.resolve_left hv))

end Full

/-! ## What is left to do accounts for the ledger -/

def isPay (q i : ℕ) : QuestInstr → Bool
  | .pay id j => decide (id = q ∧ j = i)
  | _ => false

def isFinish (q : ℕ) : QuestInstr → Bool
  | .finish id _ _ _ _ => decide (id = q)
  | _ => false

def isCommit (q : ℕ) : QuestInstr → Bool
  | .commit id _ _ => decide (id = q)
  | _ => false

/-- The invariant. A commit left to do has been counted and paid for, a `finish` paid for but for the costs
that are left, which are deducted before it; a quest in `QUEST_STATUS_INIT` has no reward yet. -/
structure Accounted (t : QuestTable) (q : ℕ) (quest : Option Quest) (l : QuestLedger) (todo : List QuestInstr) : Prop where
  absent : quest = none ∨ t.config q = none → QuestState.Settled q todo
  counted : l.increments = l.rewards.length + todo.countP (isCommit q)
  deducted : ∀ i c, QuestState.costOf t q i = some c → c.onSubmit = true →
    l.deductions i + todo.countP (isPay q i) =
      l.rewards.length + todo.countP (isCommit q) + todo.countP (isFinish q)
  once : l.rewards.length + todo.countP (isCommit q) + todo.countP (isFinish q) ≤ 1
  fresh : ∀ x, quest = some x → x.status = questStatusInit → todo.countP (isFinish q) = 0 →
    l.rewards.length + todo.countP (isCommit q) = 0
  paying : ∀ i, todo.countP (isPay q i) ≤ todo.countP (isFinish q)
  order : todo.Pairwise fun a b => isFinish q a = true → b.submitting ≠ some q

def QuestState.Accounts (t : QuestTable) (q : ℕ) (s : QuestState) : Prop := Accounted t q (s.find q) (s.ledger q) s.todo

section Accounted
variable {t : QuestTable} {q : ℕ} {quest : Option Quest} {l : QuestLedger} {todo : List QuestInstr}

theorem isPay_submitting {i : ℕ} {j : QuestInstr} (h : isPay q i j = true) : j.submitting = some q := by
  cases j with
  | pay id k =>
    rw [QuestInstr.submitting, (of_decide_eq_true h).1]
  | _ => cases h

theorem isFinish_submitting {j : QuestInstr} (h : isFinish q j = true) : j.submitting = some q := by
  cases j with
  | finish id rich select record1 record2 =>
    rw [QuestInstr.submitting, of_decide_eq_true h]
  | _ => cases h

theorem isCommit_submitting {j : QuestInstr} (h : isCommit q j = true) : j.submitting = some q := by
  cases j with
  | commit id rich select =>
    rw [QuestInstr.submitting, of_decide_eq_true h]
  | _ => cases h

theorem Settled.countP {p : QuestInstr → Bool} (hp : ∀ j, p j = true → j.submitting = some q)
    (h : QuestState.Settled q todo) : todo.countP p = 0 := by
  apply countP_eq_zero.mpr
  intro j hj hpj
  exact h j hj (hp j hpj)

theorem Settled.none_left (h : QuestState.Settled q todo) :
    (∀ i, todo.countP (isPay q i) = 0) ∧ todo.countP (isFinish q) = 0 ∧ todo.countP (isCommit q) = 0 :=
  ⟨fun _ => Settled.countP (fun _ => isPay_submitting) h, Settled.countP (fun _ => isFinish_submitting) h,
    Settled.countP (fun _ => isCommit_submitting) h⟩

theorem Accounted.append (h : Accounted t q quest l todo) {is : List QuestInstr} (his : QuestState.Settled q is) :
    Accounted t q quest l (is ++ todo) := by
  obtain ⟨hp, hf, hc⟩ := Settled.none_left his
  have e : ∀ p : QuestInstr → Bool, is.countP p = 0 → (is ++ todo).countP p = todo.countP p := by
    intro p h0
    rw [countP_append, h0, Nat.zero_add]
  have ec := e _ hc
  have ef := e _ hf
  refine ⟨fun hn => ?_, ?_, fun i c hi hon => ?_, ?_, fun x hx hst h0 => ?_, fun i => ?_, ?_⟩
  · intro j hj
    exact (mem_append.mp hj).elim (his j) (h.absent hn j)
  · rw [ec]
    exact h.counted
  · rw [e _ (hp i), ec, ef]
    exact h.deducted i c hi hon
  · rw [ec, ef]
    exact h.once
  · rw [ec]
    exact h.fresh x hx hst (ef ▸ h0)
  · rw [e _ (hp i), ef]
    exact h.paying i
  · apply pairwise_append.mpr
    have hno : ∀ a ∈ is, ¬ isFinish q a = true := fun a ha hfa => his a ha (isFinish_submitting hfa)
    refine ⟨pairwise_of_forall_mem_list fun a ha _ _ hfa => absurd hfa (hno a ha), h.order, ?_⟩
    intro a ha _ _ hfa
    exact absurd hfa (hno a ha)

theorem Accounted.tail {i : QuestInstr} (h : Accounted t q quest l (i :: todo)) (hi : i.submitting ≠ some q) :
    Accounted t q quest l todo := by
  have e : ∀ p : QuestInstr → Bool, (∀ j, p j = true → j.submitting = some q) → (i :: todo).countP p = todo.countP p := by
    intro p hp
    exact countP_cons_of_neg fun hpi => hi (hp i hpi)
  have ec := e (isCommit q) fun _ => isCommit_submitting
  have ef := e (isFinish q) fun _ => isFinish_submitting
  refine ⟨fun hn j hj => h.absent hn j (mem_cons_of_mem i hj), ?_, fun k c hk hon => ?_, ?_, fun x hx hst h0 => ?_,
    fun k => ?_, (pairwise_cons.mp h.order).2⟩
  · rw [← ec]
    exact h.counted
  · rw [← e (isPay q k) fun _ => isPay_submitting, ← ec, ← ef]
    exact h.deducted k c hk hon
  · rw [← ec, ← ef]
    exact h.once
  · rw [← ec]
    exact h.fresh x hx hst (ef.trans h0)
  · rw [← e (isPay q k) fun _ => isPay_submitting, ← ef]
    exact h.paying k

theorem Accounted.changed (h : Accounted t q quest l todo) {f : Quest → Quest}
    (hf : ∀ x, (f x).status = questStatusInit → x.status = questStatusInit) : Accounted t q (quest.map f) l todo := by
  refine ⟨fun hn => h.absent (hn.imp_left Option.map_eq_none_iff.mp), h.counted, h.deducted, h.once, ?_, h.paying, h.order⟩
  intro x hx hst
  obtain ⟨y, hy, rfl⟩ := Option.map_eq_some_iff.mp hx
  exact h.fresh y hy (hf y hst)

theorem accounted_opened (x : Quest) (h : QuestState.Settled q todo) : Accounted t q (some x) QuestLedger.empty todo := by
  obtain ⟨hp, hf, hc⟩ := Settled.none_left h
  refine ⟨fun _ => h, ?_, fun i c _ _ => ?_, ?_, fun _ _ _ _ => ?_, fun i => ?_, ?_⟩
  · simp only [QuestLedger.empty, hc, length_nil]
  · simp only [QuestLedger.empty, hc, hf, hp i, length_nil]
  · simp only [QuestLedger.empty, hc, hf, length_nil]
    exact Nat.zero_le 1
  · simp only [QuestLedger.empty, hc, length_nil]
  · rw [hp i]
    exact Nat.zero_le _
  · exact pairwise_of_forall_mem_list fun _ _ b hb _ => h b hb

theorem countP_pays (i n : ℕ) : ((List.range n).map (QuestInstr.pay q)).countP (isPay q i) = if i < n then 1 else 0 := by
  rw [countP_map, ← count_range, List.count]
  apply countP_congr
  intro j _
  simp [isPay]

theorem countP_submission {p : QuestInstr → Bool} (hp : ∀ k, p (.pay q k) = false) (n : ℕ) (i : QuestInstr)
    (hs : todo.countP p = 0) :
    ((List.range n).map (QuestInstr.pay q) ++ [i] ++ todo).countP p = if p i = true then 1 else 0 := by
  have hpays : ((List.range n).map (QuestInstr.pay q)).countP p = 0 := by
    apply countP_eq_zero.mpr
    intro j hj
    obtain ⟨k, -, rfl⟩ := mem_map.mp hj
    rw [hp k]
    exact Bool.false_ne_true
  rw [countP_append, countP_append, hpays, hs, countP_singleton, Nat.zero_add, Nat.add_zero]

theorem Accounted.submitted {x : Quest} (h : Accounted t q (some x) l todo) (hst : x.status = questStatusInit)
    (hs : QuestState.Settled q todo) {cfg : QuestConfig} (hcfg : t.config q = some cfg) (rich : Bool) (select : ℕ)
    (record1 record2 : ℤ) : Accounted t q (some x) l
      ((List.range cfg.consume.length).map (QuestInstr.pay q) ++ [QuestInstr.finish q rich select record1 record2] ++
        todo) := by
  obtain ⟨hp, hf, hc⟩ := Settled.none_left hs
  have h0 := h.fresh x rfl hst hf
  have hcounted := h.counted
  have ec := @countP_submission q todo (isCommit q) (fun _ => rfl) cfg.consume.length
    (.finish q rich select record1 record2) hc
  have ef := @countP_submission q todo (isFinish q) (fun _ => rfl) cfg.consume.length
    (.finish q rich select record1 record2) hf
  have ep : ∀ i, ((List.range cfg.consume.length).map (QuestInstr.pay q) ++
      [QuestInstr.finish q rich select record1 record2] ++ todo).countP (isPay q i) =
        if i < cfg.consume.length then 1 else 0 := by
    intro i
    rw [countP_append, countP_append, countP_pays, hp i]
    rfl
  rw [if_neg (by simp [isCommit])] at ec
  rw [if_pos (by simp [isFinish])] at ef
  refine ⟨fun hn => ?_, ?_, fun i c hi hon => ?_, ?_, fun _ _ _ h1 => ?_, fun i => ?_, ?_⟩
  · rw [hcfg] at hn
    exact absurd hn (not_or.mpr ⟨Option.some_ne_none x, Option.some_ne_none cfg⟩)
  · rw [ec, hcounted, hc]
  · have hlt : i < cfg.consume.length := by
      rw [QuestState.costOf, hcfg] at hi
      exact (List.getElem?_eq_some_iff.mp hi).1
    have hd := h.deducted i c hi hon
    rw [hp i, hf] at hd
    rw [ec, ef, ep i, if_pos hlt]
    omega
  · rw [ec, ef]
    omega
  · exact absurd (ef.symm.trans h1) Nat.one_ne_zero
  · rw [ep i, ef]
    split
    · exact le_refl 1
    · exact Nat.zero_le 1
  · -- below the `finish` there is nothing of the quest, and nothing before it is a `finish`
    apply pairwise_append.mpr
    refine ⟨?_, h.order, fun _ _ b hb _ => hs b hb⟩
    apply pairwise_append.mpr
    have hno : ∀ a ∈ (List.range cfg.consume.length).map (QuestInstr.pay q), ¬ isFinish q a = true := by
      intro a ha
      obtain ⟨k, -, rfl⟩ := mem_map.mp ha
      exact Bool.false_ne_true
    refine ⟨?_, pairwise_singleton _ _, fun a ha _ _ hfa => absurd hfa (hno a ha)⟩
    exact pairwise_of_forall_mem_list fun a ha _ _ hfa => absurd hfa (hno a ha)

theorem Accounted.paid {i : ℕ} (h : Accounted t q quest l (.pay q i :: todo)) {l' : QuestLedger}
    (hr : l'.rewards = l.rewards) (hn : l'.increments = l.increments)
    (hd : ∀ k c, QuestState.costOf t q k = some c → c.onSubmit = true →
      l'.deductions k = l.deductions k + if k = i then 1 else 0) : Accounted t q quest l' todo := by
  have ec : (QuestInstr.pay q i :: todo).countP (isCommit q) = todo.countP (isCommit q) :=
    countP_cons_of_neg Bool.false_ne_true
  have ef : (QuestInstr.pay q i :: todo).countP (isFinish q) = todo.countP (isFinish q) :=
    countP_cons_of_neg Bool.false_ne_true
  refine ⟨fun hq j hj => h.absent hq j (mem_cons_of_mem _ hj), ?_, fun k c hk hon => ?_, ?_, fun x hx hst h0 => ?_,
    fun k => ?_, (pairwise_cons.mp h.order).2⟩
  · rw [hr, hn, h.counted, ec]
  · have hd' := h.deducted k c hk hon
    rw [ec, ef, countP_cons] at hd'
    rw [hr, hd k c hk hon, ← hd']
    simp only [isPay, true_and, decide_eq_true_eq]
    by_cases hki : k = i
    · rw [if_pos hki, if_pos hki.symm]
      omega
    · rw [if_neg hki, if_neg (Ne.symm hki)]
      omega
  · rw [hr, ← ec, ← ef]
    exact h.once
  · rw [hr, ← ec]
    exact h.fresh x hx hst (ef.trans h0)
  · have hp := h.paying k
    rw [ef, countP_cons] at hp
    omega

theorem Accounted.finished {rich : Bool} {select : ℕ} {record1 record2 : ℤ}
    (h : Accounted t q quest l (.finish q rich select record1 record2 :: todo)) {x : Quest}
    (hst : x.status ≠ questStatusInit) {l' : QuestLedger} (hr : l'.rewards = l.rewards)
    (hn : l'.increments = l.increments + 1) (hd : l'.deductions = l.deductions) (rich' : Bool) (select' : ℕ) :
    Accounted t q (some x) l' (.commit q rich' select' :: todo) := by
  have ec : (QuestInstr.commit q rich' select' :: todo).countP (isCommit q) =
      (QuestInstr.finish q rich select record1 record2 :: todo).countP (isCommit q) + 1 := by
    simp [isCommit]
  have ef : (QuestInstr.finish q rich select record1 record2 :: todo).countP (isFinish q) =
      (QuestInstr.commit q rich' select' :: todo).countP (isFinish q) + 1 := by
    simp [isFinish]
  have ep : ∀ i, (QuestInstr.commit q rich' select' :: todo).countP (isPay q i) =
      (QuestInstr.finish q rich select record1 record2 :: todo).countP (isPay q i) := by
    intro i
    simp [isPay]
  have honce := h.once
  have hrest : QuestState.Settled q todo := fun j hj => (pairwise_cons.mp h.order).1 j hj (by simp [isFinish])
  refine ⟨fun hq => ?_, ?_, fun i c hi hon => ?_, ?_, fun y hy hst' _ => ?_, fun i => ?_, ?_⟩
  · have hcfg := hq.resolve_left (Option.some_ne_none x)
    exact absurd rfl (h.absent (.inr hcfg) _ mem_cons_self)
  · rw [ec, hn, hr, h.counted]
    omega
  · have hd' := h.deducted i c hi hon
    rw [ec, ep i, hr, hd]
    omega
  · rw [ec, hr]
    omega
  · exact absurd (Option.some.inj hy ▸ hst') hst
  · rw [countP_cons_of_neg Bool.false_ne_true, (Settled.none_left hrest).1 i]
    exact Nat.zero_le _
  · exact pairwise_cons.mpr ⟨fun b hb _ => hrest b hb, (pairwise_cons.mp h.order).2⟩

theorem Accounted.committed {rich : Bool} {select : ℕ} (h : Accounted t q quest l (.commit q rich select :: todo))
    {l' : QuestLedger} (hr : l'.rewards.length = l.rewards.length + 1) (hn : l'.increments = l.increments)
    (hd : l'.deductions = l.deductions) : Accounted t q quest l' todo := by
  have ec : (QuestInstr.commit q rich select :: todo).countP (isCommit q) = todo.countP (isCommit q) + 1 := by
    simp [isCommit]
  have ef : (QuestInstr.commit q rich select :: todo).countP (isFinish q) = todo.countP (isFinish q) :=
    countP_cons_of_neg Bool.false_ne_true
  have ep : ∀ i, (QuestInstr.commit q rich select :: todo).countP (isPay q i) = todo.countP (isPay q i) := fun i =>
    countP_cons_of_neg Bool.false_ne_true
  have hcounted := h.counted
  have honce := h.once
  refine ⟨fun hq j hj => h.absent hq j (mem_cons_of_mem _ hj), ?_, fun i c hi hon => ?_, ?_, fun x hx hst h0 => ?_,
    fun i => ?_, (pairwise_cons.mp h.order).2⟩
  · rw [hn, hr]
    omega
  · have hd' := h.deducted i c hi hon
    rw [ep i] at hd'
    rw [hr, hd]
    omega
  · rw [hr]
    omega
  · have hfresh := h.fresh x hx hst (ef.trans h0)
    omega
  · rw [← ef, ← ep i]
    exact h.paying i

theorem Accounted.rewardedOnce {s : QuestState} (h : s.Accounts t q) : RewardedOnce t q s := by
  have hcounted := h.counted
  have honce := h.once
  refine ⟨by omega, by omega, fun i c hi hon => ?_, fun hs => ⟨?_, fun i c hi hon => ?_⟩⟩
  · have hd := h.deducted i c hi hon
    have hp := h.paying i
    omega
  · rw [hcounted, (Settled.none_left hs).2.2, Nat.add_zero]
  · have hd := h.deducted i c hi hon
    rw [(Settled.none_left hs).1 i, (Settled.none_left hs).2.1, (Settled.none_left hs).2.2] at hd
    omega

end Accounted

/-! ## Steps -/

section Steps
variable {t : QuestTable} {v : PlayerView} {s : QuestState} {q : ℕ}

theorem not_submitting {i : QuestInstr} (hi : i.submitting = none) : i.submitting ≠ some q := by
  rw [hi]
  exact (Option.some_ne_none q).symm

theorem Settled.cons {i : QuestInstr} (hi : i.submitting = none) {is : List QuestInstr} (his : QuestState.Settled q is) :
    QuestState.Settled q (i :: is) := by
  intro j hj
  rcases mem_cons.mp hj with rfl | hj
  · exact not_submitting hi
  · exact his j hj

theorem Settled.append {is js : List QuestInstr} (his : QuestState.Settled q is) (hjs : QuestState.Settled q js) :
    QuestState.Settled q (is ++ js) := fun j hj => (mem_append.mp hj).elim (his j) (hjs j)

theorem settled_nil : QuestState.Settled q [] := fun _ h => absurd h not_mem_nil

theorem settled_one {i : QuestInstr} (hi : i.submitting = none) : QuestState.Settled q [i] := Settled.cons hi settled_nil

theorem settled_consumes (m : QuestMoment) (id : ℕ) : QuestState.Settled q (QuestState.consumes t m id) := by
  intro j hj
  obtain ⟨c, rfl⟩ := mem_consumes hj
  exact not_submitting rfl

namespace QuestState

theorem accounts_of {quest : Option Quest} {l : QuestLedger} {todo : List QuestInstr} (h : Accounted t q quest l todo)
    (hf : s.find q = quest) (hl : s.ledger q = l) (ht : s.todo = todo) : s.Accounts t q := by
  unfold Accounts
  rw [hf, hl, ht]
  exact h

theorem Accounts.push (h : s.Accounts t q) {is : List QuestInstr} (his : Settled q is) : (s.push is).Accounts t q :=
  Accounted.append h his

theorem Accounts.setQuest (h : s.Accounts t q) (id : ℕ) {f : Quest → Quest} (hid : ∀ x, (f x).id = x.id)
    (hf : ∀ x, (f x).status = questStatusInit → x.status = questStatusInit) : (s.setQuest id f).Accounts t q := by
  unfold Accounts
  rw [find_setQuest f hid]
  by_cases hq : q = id
  · subst hq
    rw [if_pos rfl]
    exact Accounted.changed h hf
  · rw [if_neg hq]
    exact h

theorem Accounts.setLedger (h : s.Accounts t q) {id : ℕ} (hq : q ≠ id) (l : QuestLedger) :
    (s.setLedger id l).Accounts t q := by
  unfold Accounts QuestState.setLedger
  simp only [update_of_ne hq]
  exact h

theorem Accounts.take (h : s.Accounts t q) (m : QuestMoment) (c : QuestConsume) : (s.take t m c).Accounts t q := by
  apply Accounted.append h
  intro j hj
  obtain ⟨type, eventId, count, rfl⟩ := mem_itemEvents hj
  exact not_submitting rfl

theorem Accounts.updateQuest (h : s.Accounts t q) (id : ℕ) (next : QuestResume) : (s.updateQuest t id next).Accounts t q := by
  have hnext : Settled q [QuestInstr.resume next] := settled_one rfl
  unfold QuestState.updateQuest
  split
  · split
    · apply Accounts.push
      · exact h.setQuest id (fun _ => rfl) fun x hx => absurd hx (resetQuest_status x)
      · exact Settled.cons rfl (Settled.cons rfl hnext)
    · exact (h.setQuest id (updateQuestStatus_id _ _) (updateQuestStatus_status _ _)).push hnext
  · exact h.push hnext

theorem Accounts.recordEvent (h : s.Accounts t q) (type eventId count : ℤ) (id : ℕ) :
    (s.recordEvent t v type eventId count id).Accounts t q := by
  have hnext : Settled q [QuestInstr.onEvent type eventId count (some id)] := settled_one rfl
  unfold QuestState.recordEvent
  simp only
  split
  · split
    · split
      · exact h.push hnext
      · next r _ =>
        apply Accounts.push
        · exact h.setQuest id (fun _ => rfl) fun x hx => recordQuest_status r x ▸ hx
        · split
          · exact Settled.cons rfl hnext
          · exact hnext
    · exact h.push hnext
  · exact h.push hnext

theorem Accounts.acceptNew (h : s.Accounts t q) (id : ℕ) : (s.acceptNew t id).Accounts t q := by
  unfold QuestState.acceptNew
  cases hf : s.find id with
  | some quest => exact h.push (settled_one rfl)
  | none =>
    apply Accounts.push _ (settled_consumes .accept id)
    unfold Accounts
    rw [find_setLedger, find_newQuest]
    by_cases hq : id = q
    · subst hq
      rw [hf, if_pos rfl]
      simp only [QuestState.setLedger, update_self]
      exact accounted_opened _ (h.absent (.inl hf))
    · rw [if_neg hq, Option.or_none]
      simp only [QuestState.setLedger, update_of_ne (Ne.symm hq)]
      exact h

theorem Accounts.acceptAgain (h : s.Accounts t q) (id : ℕ) (hs : id = q → s.opens t q = true → Settled q s.todo) :
    (s.acceptAgain t id).Accounts t q := by
  unfold QuestState.acceptAgain
  split
  · next ho =>
    apply Accounts.push _ (settled_consumes .accept id)
    by_cases hq : q = id
    · subst hq
      unfold Accounts
      rw [find_setLedger, find_setQuest (openQuest s.now) (fun _ => rfl), if_pos rfl]
      simp only [QuestState.setLedger, update_self]
      cases hf : s.find q with
      | none =>
        unfold QuestState.opens at ho
        rw [hf] at ho
        cases ho
      | some quest => exact accounted_opened _ (hs rfl ho)
    · apply Accounts.setLedger _ hq
      unfold Accounts
      rw [find_setQuest (openQuest s.now) (fun _ => rfl), if_neg hq]
      exact h
  · exact h

theorem Accounts.cancelRest (h : s.Accounts t q) (id : ℕ) : (s.cancelRest t id).Accounts t q := by
  unfold QuestState.cancelRest
  split
  · apply Accounts.push _ (settled_consumes .cancel id)
    exact h.setQuest id (fun _ => rfl) fun x hx => absurd hx (cancelQuest_status x)
  · exact h

theorem Accounts.submitRest (h : s.Accounts t q) (id : ℕ) (rich : Bool) (select : ℕ)
    (hs : id = q → (s.checkSubmit t v q).isSome → Settled q s.todo) :
    (s.push (s.submitRest t v id rich select)).Accounts t q := by
  unfold QuestState.submitRest
  split
  · next record1 record2 cfg hcheck hcfg =>
    by_cases hq : id = q
    · subst hq
      have hset := hs rfl (hcheck ▸ rfl)
      unfold QuestState.checkSubmit at hcheck
      split at hcheck
      · next quest cfg' hf _ =>
        split at hcheck
        · cases hcheck
        · next hst =>
          unfold Accounts at h ⊢
          rw [find_push, hf]
          rw [hf] at h
          exact Accounted.submitted h (not_not.mp hst) hset hcfg rich select record1 record2
      · cases hcheck
    · apply h.push
      intro j hj
      rcases mem_append.mp hj with hj | hj
      · obtain ⟨k, -, rfl⟩ := mem_map.mp hj
        exact fun he => hq (Option.some.inj he)
      · rw [mem_singleton.mp hj]
        exact fun he => hq (Option.some.inj he)
  · exact h

theorem Accounts.payCost {id i : ℕ} (h : Accounted t q (s.find q) (s.ledger q) (.pay id i :: s.todo))
    (hpay : id = q → ∀ c, costOf t q i = some c → c.onSubmit = true → c.Payable t s.inventory) :
    (s.payCost t id i).Accounts t q := by
  by_cases hq : id = q
  · subst hq
    unfold QuestState.payCost
    cases hc : costOf t id i with
    | none =>
      apply Accounted.paid h rfl rfl
      intro k c hk _
      rw [if_neg, add_zero]
      intro he
      subst he
      exact Option.some_ne_none c (hk.symm.trans hc)
    | some c =>
      simp only
      split
      · have h' : Accounted t id (s.find id) (deducted (s.ledger id) i) s.todo := by
          apply @Accounted.paid _ _ _ _ _ _ h (deducted (s.ledger id) i) rfl rfl
          intro k c' _ _
          by_cases hk : k = i
          · subst hk
            rw [if_pos rfl]
            exact update_self ..
          · rw [if_neg hk]
            exact update_of_ne hk ..
        have ht : Accounted t id (s.find id) (deducted (s.ledger id) i) (s.take t .submit c).todo := by
          apply Accounted.append h'
          intro j hj
          obtain ⟨type, eventId, count, rfl⟩ := mem_itemEvents hj
          exact not_submitting rfl
        unfold Accounts QuestState.setLedger
        simp only [update_self]
        exact ht
      · next hfull =>
        apply Accounts.take
        apply Accounted.paid h rfl rfl
        intro k c' hk hon
        rw [if_neg, add_zero]
        intro he
        subst he
        obtain rfl := some_unique hk hc
        exact hfull ⟨hon, payable_full hon (hpay rfl c' hc hon)⟩
  · have h' : s.Accounts t q := Accounted.tail h fun he => hq (Option.some.inj he)
    unfold QuestState.payCost
    cases costOf t id i with
    | none => exact h'
    | some c =>
      simp only
      split
      · exact (h'.take .submit c).setLedger (Ne.symm hq) _
      · exact h'.take .submit c

theorem Accounts.finish {id : ℕ} {rich : Bool} {select : ℕ} {record1 record2 : ℤ}
    (h : Accounted t q (s.find q) (s.ledger q) (.finish id rich select record1 record2 :: s.todo))
    (hcount : id = q → ∀ quest, s.find q = some quest → 0 ≤ quest.count ∧ quest.count < 2 ^ 31 - 1) :
    (s.finish t id rich select record1 record2).Accounts t q := by
  have hdrops : ∀ cfg quest, Settled q (drops cfg quest) := by
    intro cfg quest j hj
    rw [mem_drops hj]
    exact not_submitting rfl
  have hid : ∀ x, (finishQuest s.now record1 record2 x).id = x.id := fun _ => rfl
  by_cases hq : id = q
  · subst hq
    have hthere : ∀ p : Prop, (p → Settled id (.finish id rich select record1 record2 :: s.todo)) → ¬ p :=
      fun p hp hpp => hp hpp _ mem_cons_self rfl
    unfold QuestState.finish
    cases hf : s.find id with
    | none => exact absurd (Or.inl hf) (hthere _ h.absent)
    | some quest =>
      cases hcfg : t.config id with
      | none => exact absurd (Or.inr hcfg) (hthere _ h.absent)
      | some cfg =>
        simp only
        rw [if_pos (finishQuest_count s.now record1 record2 (hcount rfl quest hf).1 (hcount rfl quest hf).2)]
        have h' := @Accounted.finished _ _ _ _ _ _ _ _ _ h (finishQuest s.now record1 record2 quest)
          (finishQuest_status _ _ _ _) { s.ledger id with increments := (s.ledger id).increments + 1 } rfl rfl rfl rich select
        apply accounts_of (h'.append (hdrops cfg (finishQuest s.now record1 record2 quest)))
        · exact (find_setQuest _ hid id id).trans (by rw [if_pos rfl, hf]; rfl)
        · exact update_self ..
        · exact append_assoc ..
  · have h' : s.Accounts t q := Accounted.tail h fun he => hq (Option.some.inj he)
    unfold QuestState.finish
    split
    · next quest cfg _ _ =>
      apply Accounts.push
      · exact (h'.setQuest id hid fun x hx => absurd hx (finishQuest_status _ _ _ x)).setLedger (Ne.symm hq) _
      · apply Settled.append (hdrops cfg _)
        intro j hj
        rw [mem_singleton.mp hj]
        exact fun he => hq (Option.some.inj he)
    · exact h'

theorem Accounts.commit {id : ℕ} {rich : Bool} {select : ℕ}
    (h : Accounted t q (s.find q) (s.ledger q) (.commit id rich select :: s.todo)) :
    (s.commit t v id rich select).Accounts t q := by
  have hnext : ∀ cfg, Settled q (QuestInstr.handlers :: nextQuests t v cfg select ++
      [.onEvent questEventTaskSubmit id 1 none, .onEvent questEventSometypeTaskFinish cfg.typeFlag 1 none]) := by
    intro cfg
    apply Settled.append
    · apply Settled.cons rfl
      intro j hj
      obtain ⟨next, rfl⟩ := mem_nextQuests hj
      exact not_submitting rfl
    · exact Settled.cons rfl (settled_one rfl)
  by_cases hq : id = q
  · subst hq
    have hthere : ∀ p : Prop, (p → Settled id (.commit id rich select :: s.todo)) → ¬ p :=
      fun p hp hpp => hp hpp _ mem_cons_self rfl
    unfold QuestState.commit
    cases hf : s.find id with
    | none => exact absurd (Or.inl hf) (hthere _ h.absent)
    | some quest =>
      cases hcfg : t.config id with
      | none => exact absurd (Or.inr hcfg) (hthere _ h.absent)
      | some cfg =>
        simp only
        have h' := @Accounted.committed _ _ _ _ _ _ _ h
          { s.ledger id with rewards := (s.ledger id).rewards ++ [questContents cfg s.now quest rich] }
          (length_append ..) rfl rfl
        exact accounts_of (h'.append (hnext cfg)) rfl (update_self ..) rfl
  · have h' : s.Accounts t q := Accounted.tail h fun he => hq (Option.some.inj he)
    unfold QuestState.commit
    split
    · next cfg _ _ => exact (h'.setLedger (Ne.symm hq) _).push (hnext cfg)
    · exact h'

end QuestState

theorem exec_accounted (i : QuestInstr) (h : Accounted t q (s.find q) (s.ledger q) (i :: s.todo))
    (hc : SubmitsAlone t q { s with todo := i :: s.todo } (.tick v)) : (s.exec t v i).Accounts t q := by
  have htail : i.submitting = none → s.Accounts t q := fun hi => Accounted.tail h (not_submitting hi)
  have hsettled : QuestState.Settled q (i :: s.todo) → QuestState.Settled q s.todo := fun hs j hj =>
    hs j (mem_cons_of_mem i hj)
  cases i with
  | accept id fromClient =>
    apply (htail rfl).push
    intro j hj
    rcases (mem_beginAccept hj).2 with rfl | ⟨dep, rfl⟩
    · exact not_submitting rfl
    · exact not_submitting rfl
  | cancel id fromClient =>
    apply (htail rfl).push
    rcases beginCancel_cases t s id fromClient with he | he
    · rw [he]
      exact settled_nil
    · rw [he]
      exact settled_one rfl
  | submit id rich fromClient select =>
    apply (htail rfl).push
    intro j hj
    rw [mem_beginSubmit hj]
    exact not_submitting rfl
  | onEvent type eventId count prev =>
    apply (htail rfl).push
    intro j hj
    obtain ⟨id, rfl | rfl⟩ := mem_beginEvent hj
    · exact not_submitting rfl
    · exact not_submitting rfl
  | update id next => exact (htail rfl).updateQuest id next
  | expire id =>
    unfold QuestState.exec QuestState.expireQuest
    simp only
    split
    · exact htail rfl
    · next cfg _ => exact (htail rfl).setQuest id (checkTimeLimit_id cfg s.now) (checkTimeLimit_status cfg s.now)
  | resume next =>
    cases next with
    | depend id =>
      apply (htail rfl).push
      intro j hj
      obtain ⟨others, rfl⟩ := mem_acceptDepend hj
      exact not_submitting rfl
    | group id other rest =>
      apply (htail rfl).push
      intro j hj
      rw [mem_acceptOther hj]
      exact not_submitting rfl
    | accept id => exact (htail rfl).acceptAgain id fun he ho => hsettled (hc he ho)
    | cancel id => exact (htail rfl).cancelRest id
    | submit id rich select => exact (htail rfl).submitRest id rich select fun he hp => hsettled (hc he hp)
    | event type eventId count id => exact (htail rfl).recordEvent type eventId count id
  | acceptGroup id others =>
    cases others with
    | nil => exact (htail rfl).acceptNew id
    | cons other rest =>
      apply (htail rfl).push
      intro j hj
      rcases mem_acceptNext hj with rfl | rfl
      · exact not_submitting rfl
      · exact not_submitting rfl
  | consume m c => exact (htail rfl).take m c
  | pay id i => exact QuestState.Accounts.payCost h hc
  | finish id rich select record1 record2 => exact QuestState.Accounts.finish h hc
  | commit id rich select => exact QuestState.Accounts.commit h
  | handlers => exact htail rfl

theorem questStep_accounted (a : QuestAct) {s' : QuestState} (h : s.Accounts t q) (hc : SubmitsAlone t q s a)
    (hs : questStep t s a = .ok s') : s'.Accounts t q := by
  have hcall : ∀ {b : Bool} {i : QuestInstr}, i.submitting = none → (if b then s.push [i] else s).Accounts t q := by
    intro b i hi
    split
    · exact h.push (settled_one hi)
    · exact h
  cases a with
  | accept id fromClient =>
    obtain rfl := Except.ok.inj hs
    exact hcall rfl
  | cancel id fromClient =>
    obtain rfl := Except.ok.inj hs
    exact hcall rfl
  | submit id rich fromClient select =>
    obtain rfl := Except.ok.inj hs
    exact hcall rfl
  | onEvent type eventId count =>
    obtain rfl := Except.ok.inj hs
    exact hcall rfl
  | inventory inv =>
    obtain rfl := Except.ok.inj hs
    split
    · exact h
    · exact h
  | time now =>
    obtain rfl := Except.ok.inj hs
    split
    · exact h
    · exact h
  | tick v =>
    unfold questStep at hs
    cases htodo : s.todo with
    | nil =>
      rw [htodo] at hs
      obtain rfl := Except.ok.inj hs
      exact h
    | cons i rest =>
      rw [htodo] at hs
      obtain rfl := Except.ok.inj hs
      obtain ⟨quests, inventory, now, todo, ledger, submissions⟩ := s
      simp only at htodo
      subst htodo
      exact @exec_accounted t v ⟨quests, inventory, now, rest, ledger, submissions⟩ q i h hc

end Steps

theorem start_accounts (t : QuestTable) (q : ℕ) (quests : List Quest) (inventory : Inventory) (now : ℕ) :
    (QuestState.start quests inventory now).Accounts t q :=
  ⟨fun _ _ h => absurd h not_mem_nil, rfl, fun _ _ _ _ => rfl, Nat.zero_le 1, fun _ _ _ _ => rfl,
    fun _ => le_refl 0, List.Pairwise.nil⟩

/-- In every run in which no submission of a quest starts or reopens it inside another one, every cost of
submitting it is covered when it is deducted and its count does not overflow, its reward is committed once. -/
theorem quest_rewarded_once (t : QuestTable) (q : ℕ) (quests : List Quest) (inventory : Inventory) (now : ℕ)
    (acts : List QuestAct) (h : Along (questStep t) (SubmitsAlone t q) (QuestState.start quests inventory now) acts) :
    Throughout (questStep t) (RewardedOnce t q) (QuestState.start quests inventory now) acts := by
  apply run_throughout (fun _ hs => Accounted.rewardedOnce hs) (fun _ a _ hs hc => questStep_accounted a hs hc) acts _
    (start_accounts t q quests inventory now) h

/-! ## A quest with a cost -/

def plainQuest : QuestConfig where
  group := 0
  autoAccept := 0
  onlyAcceptByOtherActivity := false
  dependQuest := 0
  dependFight := 0
  dependLevel := 0
  dependItem := 0
  nextQuest := 0
  nextQuestGroup := 0
  nextQuestMenu := 0
  event1 := ⟨0, 0, 0⟩
  event2 := ⟨0, 0, 0⟩
  consume := []
  reward := []
  begin := 0
  «end» := 0
  period := 0
  duration := 0
  extraReward := (0, 0, 0)
  countLimit := 0
  countLimit_lt := by decide
  timeLimit := 0
  dropId := 0
  dropCount := 0
  relativeToBorn := false
  typeFlag := 0
  extraRewardTimeLimit := 0

def oneQuest (cfg : QuestConfig) : QuestTable where
  config := fun id => if id = 7 then some cfg else none
  group := fun _ => []
  delay := fun _ => 0
  overrideMin := fun _ _ => false
  overrideMax := fun _ _ => false
  packages := fun _ => none
  pid := 100000
  create := 0

def costQuest : QuestConfig := { plainQuest with consume := [⟨⟨41, 5, 10⟩, 1⟩], reward := [⟨41, 90002, 100, 200, 0⟩] }

def autoQuest : QuestConfig := { costQuest with autoAccept := 2, event1 := ⟨46, 5, 1⟩ }

def plainView : PlayerView := ⟨1, fun _ => true, 0, fun _ => true, none, fun _ => true, fun _ => true⟩

def itemFive (n : ℕ) : Inventory := ⟨fun id => if id = 5 then some n else none, fun _ _ => none, fun _ => 0⟩

def ticks (n : ℕ) : List QuestAct := List.replicate n (.tick plainView)

theorem quest_rewarded_once_ten : Throughout (questStep (oneQuest costQuest)) (RewardedOnce (oneQuest costQuest) 7)
    (QuestState.start [] (itemFive 20) 1000) (.accept 7 true :: ticks 4 ++ .submit 7 false true 0 :: ticks 19) := by
  apply quest_rewarded_once (oneQuest costQuest) 7 [] (itemFive 20) 1000
  decide +kernel

def twiceActs : List QuestAct :=
  .accept 7 true :: ticks 4 ++ .onEvent 46 5 1 :: ticks 7 ++ .inventory (itemFive 20) :: .submit 7 false true 0 :: ticks 41

/-- Submitting consumes ten of the twenty, and that submits the quest, which takes the other ten; both
submissions go on and commit the reward. -/
theorem questSubmit_rewards_twice :
    ∃ s, run (questStep (oneQuest autoQuest)) (QuestState.start [] (itemFive 5) 1000) twiceActs = .ok s ∧
      (s.ledger 7).rewards = [[(41, 90002, 100)], [(41, 90002, 100)]] ∧ s.inventory.item 5 = some 0 ∧
      (s.find 7).map Quest.count = some 2 ∧ ¬ RewardedOnce (oneQuest autoQuest) 7 s := by
  have h : (run (questStep (oneQuest autoQuest)) (QuestState.start [] (itemFive 5) 1000) twiceActs).map
      (fun s => ((s.ledger 7).rewards, s.inventory.item 5, (s.find 7).map Quest.count)) =
        .ok ([[(41, 90002, 100)], [(41, 90002, 100)]], some 0, some 2) := by
    decide +kernel
  cases hrun : run (questStep (oneQuest autoQuest)) (QuestState.start [] (itemFive 5) 1000) twiceActs with
  | error f =>
    rw [hrun] at h
    cases h
  | ok s =>
    rw [hrun] at h
    have h' := Except.ok.inj h
    simp only [Prod.mk.injEq] at h'
    refine ⟨s, rfl, h'.1, h'.2.1, h'.2.2, fun hone => ?_⟩
    have hle := hone.once
    rw [h'.1] at hle
    exact absurd hle (by decide)

end CServer.Logic
