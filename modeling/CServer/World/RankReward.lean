import CServer.Lib.Bubble
import CServer.Lib.Exec
import CServer.Lib.Memory

/-! # `world/rankreward.c`: the list of the best

`rank_insert` keeps the `RANK_COUNT` players with the greatest values. A player who is listed gets the new value in
place, another one goes to the end or takes the place of the last one, and the entry then moves forward past the entries
with smaller values.
-/
namespace CServer.World
open CServer.Lib List Function Option

/-! ## The code -/

def rankCount : ℕ := 100

structure RankValue where
  pid : ℕ
  value : ℤ
  deriving DecidableEq

structure RankList where
  n : ℕ
  top : ℕ → RankValue

instance : DecidableRel fun a b : RankValue => a.value < b.value := fun a b => inferInstanceAs (Decidable (a.value < b.value))

def moveForward (top : ℕ → RankValue) (i : ℕ) : ℕ → RankValue := bubble (fun a b => a.value < b.value) top i

def RankList.find (list : RankList) (pid : ℕ) : Option ℕ := (List.range list.n).find? fun i => (list.top i).pid = pid

def rankInsert (list : RankList) (call : RankValue) : Except Fault RankList :=
  if list.n ≥ rankCount ∧ call.value ≤ (list.top (rankCount - 1)).value then .ok list
  else
    match list.find call.pid with
    | some i => do
      assert (decide (call.value ≥ (list.top i).value))
      return { list with top := moveForward (update list.top i call) i }
    | none =>
      if list.n < rankCount then .ok ⟨list.n + 1, moveForward (update list.top list.n call) list.n⟩
      else .ok { list with top := moveForward (update list.top (rankCount - 1) call) (rankCount - 1) }

def RankList.empty : RankList := ⟨0, fun _ => ⟨0, 0⟩⟩

/-! ## What the list should be -/

def Rising (hist : List RankValue) : Prop := hist.Pairwise fun a b => a.pid = b.pid → a.value ≤ b.value

def latest (hist : List RankValue) (pid : ℕ) : Option ℤ := ((hist.filter fun c => c.pid = pid).getLast?).map RankValue.value

def Before (hist : List RankValue) (a b : RankValue) : Prop :=
  b.value < a.value ∨ a.value = b.value ∧ hist.idxOf a < hist.idxOf b

def RankList.Lists (list : RankList) (pid : ℕ) : Prop := ∃ i < list.n, (list.top i).pid = pid

structure Ranked (hist : List RankValue) (list : RankList) : Prop where
  bounded : list.n ≤ rankCount
  sorted : ∀ i j, i < j → j < list.n → Before hist (list.top i) (list.top j)
  distinct : ∀ i j, i < list.n → j < list.n → (list.top i).pid = (list.top j).pid → i = j
  current : ∀ i < list.n, latest hist (list.top i).pid = some (list.top i).value
  complete : list.n < rankCount → ∀ c ∈ hist, list.Lists c.pid
  best : list.n = rankCount → ∀ pid v, ¬ list.Lists pid → latest hist pid = some v → v ≤ (list.top (rankCount - 1)).value

/-! ## Histories -/

variable {hist : List RankValue} {call : RankValue} {list : RankList} {pid : ℕ} {v : ℤ}

theorem latest_snoc : latest (hist ++ [call]) pid = if call.pid = pid then some call.value else latest hist pid := by
  unfold latest
  rw [filter_append, filter_singleton]
  by_cases h : call.pid = pid
  · simp [h]
  · simp [h]

theorem latest_mem (h : latest hist pid = some v) : (⟨pid, v⟩ : RankValue) ∈ hist := by
  obtain ⟨c, hc, rfl⟩ := map_eq_some_iff.mp h
  obtain ⟨hmem, hpid⟩ := mem_filter.mp (List.mem_of_getLast? hc)
  rwa [← of_decide_eq_true hpid]

theorem latest_of_mem (h : call ∈ hist) : ∃ v, latest hist call.pid = some v := by
  have hmem : call ∈ hist.filter fun c => c.pid = call.pid := mem_filter.mpr ⟨h, decide_eq_true rfl⟩
  exact ⟨_, by rw [latest, List.getLast?_eq_some_getLast (ne_nil_of_mem hmem), map_some]⟩

theorem Rising.le_latest (hrising : Rising hist) (hmem : call ∈ hist) (h : latest hist call.pid = some v) : call.value ≤ v := by
  induction hist using List.reverseRecOn with
  | nil => cases hmem
  | append_singleton hist c ih =>
    obtain ⟨hr, -, hlast⟩ := pairwise_append.mp hrising
    rw [latest_snoc] at h
    obtain hmem | hmem := mem_append.mp hmem
    · split at h
      case isTrue hpid =>
        rw [← some.inj h]
        exact hlast call hmem c mem_cons_self hpid.symm
      case isFalse => exact ih hr hmem h
    · obtain rfl := mem_singleton.mp hmem
      rw [if_pos rfl] at h
      exact (some.inj h).le

theorem Rising.known (hrising : Rising (hist ++ [call])) (hmem : call ∈ hist) : latest hist call.pid = some call.value := by
  obtain ⟨hr, -, hlast⟩ := pairwise_append.mp hrising
  obtain ⟨v, hv⟩ := latest_of_mem hmem
  have hle := Rising.le_latest hr hmem hv
  have hge := hlast _ (latest_mem hv) call mem_cons_self rfl
  exact hv.trans (congrArg some (le_antisymm hge hle))

/-! ## The order -/

theorem Before.value_le {a b : RankValue} (h : Before hist a b) : b.value ≤ a.value := by
  obtain h | ⟨h, -⟩ := h
  · exact h.le
  · exact h.ge

theorem Before.trans {a b c : RankValue} (hab : Before hist a b) (hbc : Before hist b c) : Before hist a c := by
  have hab' := hab.value_le
  have hbc' := hbc.value_le
  obtain h | ⟨h, hidx⟩ := hab
  · exact .inl (by omega)
  · obtain h' | ⟨h', hidx'⟩ := hbc
    · exact .inl (by omega)
    · exact .inr ⟨h.trans h', hidx.trans hidx'⟩

theorem Before.snoc {a b : RankValue} (h : Before hist a b) (ha : a ∈ hist) (hb : b ∈ hist) :
    Before (hist ++ [call]) a b := by
  refine h.imp_right fun ⟨hvalue, hidx⟩ => ⟨hvalue, ?_⟩
  rwa [idxOf_append_of_mem ha, idxOf_append_of_mem hb]

theorem before_new {a : RankValue} (ha : a ∈ hist) (hnew : call ∉ hist) (hle : call.value ≤ a.value) :
    Before (hist ++ [call]) a call := by
  obtain hlt | heq := hle.lt_or_eq
  · exact .inl hlt
  · refine .inr ⟨heq.symm, ?_⟩
    rw [idxOf_append_of_mem ha, idxOf_append_of_notMem hnew]
    exact Nat.lt_add_right _ (idxOf_lt_length_of_mem ha)

/-! ## One call -/

/-- The list when an entry at `i` has been written and not yet moved. -/
structure Written (hist : List RankValue) (top : ℕ → RankValue) (i n : ℕ) : Prop where
  bounded : n ≤ rankCount
  place : i < n
  sorted : SortedBut (fun a b : RankValue => a.value < b.value) (Before hist) top i n
  distinct : ∀ a b, a < n → b < n → (top a).pid = (top b).pid → a = b
  current : ∀ a < n, latest hist (top a).pid = some (top a).value
  complete : n < rankCount → ∀ c ∈ hist, ∃ a < n, (top a).pid = c.pid
  best : n = rankCount → ∀ pid v, (∀ a < n, (top a).pid ≠ pid) → latest hist pid = some v → ∀ a < n, v ≤ (top a).value

theorem Written.move {top : ℕ → RankValue} {i n : ℕ} (h : Written hist top i n) : Ranked hist ⟨n, moveForward top i⟩ := by
  obtain ⟨e, hfix, heq⟩ := bubble_perm (fun a b : RankValue => a.value < b.value) top i
  have htop : moveForward top i = top ∘ e := heq
  have hlt : ∀ {k}, e k < n ↔ k < n := perm_lt hfix h.place
  have hlists : ∀ a < n, ∃ k < n, (moveForward top i k).pid = (top a).pid := by
    intro a ha
    refine ⟨e.symm a, hlt.mp ?_, ?_⟩
    · rwa [Equiv.apply_symm_apply]
    · rw [htop, comp_apply, Equiv.apply_symm_apply]
  refine ⟨h.bounded, ?_, ?_, ?_, ?_, ?_⟩
  · have hless : ∀ a b : RankValue, Before hist a b → ¬ a.value < b.value := fun a b hb => not_lt.mpr hb.value_le
    exact bubble_sorted (R := Before hist) (fun a b c hab hbc => hab.trans hbc) hless h.place h.sorted
  · intro a b ha hb hpid
    simp only [htop, comp_apply] at hpid
    exact e.injective (h.distinct _ _ (hlt.mpr ha) (hlt.mpr hb) hpid)
  · intro a ha
    simp only [htop, comp_apply]
    exact h.current _ (hlt.mpr ha)
  · intro hn c hc
    obtain ⟨a, ha, hpid⟩ := h.complete hn c hc
    obtain ⟨k, hk, hkpid⟩ := hlists a ha
    exact ⟨k, hk, hkpid.trans hpid⟩
  · intro hn pid v hnot hv
    simp only [htop, comp_apply]
    refine h.best hn pid v (fun a ha hpid => ?_) hv _ (hlt.mpr ?_)
    · obtain ⟨k, hk, hkpid⟩ := hlists a ha
      exact hnot ⟨k, hk, hkpid.trans hpid⟩
    · have hcount : 0 < rankCount := by decide
      simp only at hn
      omega

theorem Ranked.mem (h : Ranked hist list) {i : ℕ} (hi : i < list.n) : list.top i ∈ hist := latest_mem (h.current i hi)

theorem Ranked.last_le (h : Ranked hist list) (hn : list.n = rankCount) {i : ℕ} (hi : i < list.n) :
    (list.top (rankCount - 1)).value ≤ (list.top i).value := by
  by_cases hlast : i = rankCount - 1
  · rw [hlast]
  · exact (h.sorted i (rankCount - 1) (by omega) (by omega)).value_le

theorem Ranked.write (h : Ranked hist list) {i n : ℕ} (hi : i < n) (hn : n ≤ list.n + 1) (hlast : n = list.n ∨ i = list.n)
    (hover : i < list.n → (list.top i).value < call.value ∨ list.top i = call)
    (hknown : call ∈ hist → i < list.n ∧ list.top i = call) :
    SortedBut (fun a b : RankValue => a.value < b.value) (Before (hist ++ [call])) (update list.top i call) i n := by
  have hold : ∀ a b, a < b → b < list.n → Before (hist ++ [call]) (list.top a) (list.top b) := fun a b hab hb =>
    (h.sorted a b hab hb).snoc (h.mem (by omega)) (h.mem hb)
  refine ⟨?_, ?_, ?_, ?_⟩
  · intro a b hab hb ha hbi
    rw [update_of_ne ha, update_of_ne hbi]
    exact hold a b hab (by omega)
  · intro b hib hb
    have hbn : b < list.n := by omega
    have hbefore := hold i b hib hbn
    rw [update_self, update_of_ne (by omega)]
    obtain hlt | heq := hover (by omega)
    · exact .inl (hbefore.value_le.trans_lt hlt)
    · rwa [heq] at hbefore
  · intro a ha hless
    rw [update_self, update_of_ne (by omega)] at hless ⊢
    exact .inl hless
  · intro a ha hnot
    rw [update_self, update_of_ne (by omega)] at hnot ⊢
    by_cases hmem : call ∈ hist
    · obtain ⟨hin, heq⟩ := hknown hmem
      have hbefore := hold a i ha hin
      rwa [heq] at hbefore
    · exact before_new (h.mem (by omega)) hmem (not_lt.mp hnot)

theorem Ranked.write_current (h : Ranked hist list) {i a : ℕ} (hother : a ≠ i → a < list.n ∧ (list.top a).pid ≠ call.pid) :
    latest (hist ++ [call]) (update list.top i call a).pid = some (update list.top i call a).value := by
  by_cases ha : a = i
  · rw [ha, update_self, latest_snoc, if_pos rfl]
  · obtain ⟨hlt, hpid⟩ := hother ha
    rw [update_of_ne ha, latest_snoc, if_neg hpid.symm]
    exact h.current a hlt

theorem find_some {i : ℕ} (h : list.find pid = some i) : i < list.n ∧ (list.top i).pid = pid := by
  have hmem := List.mem_of_find?_eq_some h
  have htest := List.find?_some h
  exact ⟨mem_range.mp hmem, of_decide_eq_true htest⟩

theorem find_none (h : list.find pid = none) : ¬ list.Lists pid := by
  intro ⟨i, hi, hpid⟩
  exact List.find?_eq_none.mp h i (mem_range.mpr hi) (decide_eq_true hpid)

theorem Ranked.renew (h : Ranked hist list) {i : ℕ} (hfind : list.find call.pid = some i)
    (hge : (list.top i).value ≤ call.value) (hrising : Rising (hist ++ [call])) :
    Written (hist ++ [call]) (update list.top i call) i list.n := by
  obtain ⟨hi, hpid⟩ := find_some hfind
  have hpids : ∀ a, (update list.top i call a).pid = (list.top a).pid := by
    intro a
    by_cases ha : a = i
    · rw [ha, update_self, hpid]
    · rw [update_of_ne ha]
  have hsame : (list.top i).value = call.value → list.top i = call := fun hv => by
    rw [← show (⟨(list.top i).pid, (list.top i).value⟩ : RankValue) = list.top i from rfl, hpid, hv]
  refine ⟨h.bounded, hi, h.write (by omega) (by omega) (.inl rfl) ?_ ?_, ?_, ?_, ?_, ?_⟩
  · exact fun _ => hge.lt_or_eq.imp_right hsame
  · intro hmem
    have hcurrent := h.current i hi
    rw [hpid, hrising.known hmem] at hcurrent
    exact ⟨hi, hsame (some.inj hcurrent).symm⟩
  · intro a b ha hb heq
    rw [hpids, hpids] at heq
    exact h.distinct a b ha hb heq
  · intro a ha
    exact h.write_current fun hai => ⟨ha, fun heq => hai (h.distinct a i ha hi (heq.trans hpid.symm))⟩
  · intro hn c hc
    obtain ⟨a, ha, hcpid⟩ : list.Lists c.pid := by
      obtain hc | hc := mem_append.mp hc
      · exact h.complete hn c hc
      · exact ⟨i, hi, hpid.trans (congrArg RankValue.pid (mem_singleton.mp hc)).symm⟩
    exact ⟨a, ha, (hpids a).trans hcpid⟩
  · intro hn q v hnot hv a ha
    have hnot' : ¬ list.Lists q := fun ⟨b, hb, hbpid⟩ => hnot b hb ((hpids b).trans hbpid)
    rw [latest_snoc, if_neg fun hq => hnot' ⟨i, hi, hpid.trans hq⟩] at hv
    refine (h.best hn q v hnot' hv).trans ((h.last_le hn ha).trans ?_)
    by_cases hai : a = i
    · rw [hai, update_self]
      exact hge
    · rw [update_of_ne hai]

theorem Ranked.append (h : Ranked hist list) (hfind : list.find call.pid = none) (hroom : list.n < rankCount) :
    Written (hist ++ [call]) (update list.top list.n call) list.n (list.n + 1) := by
  have hnot := find_none hfind
  have hnew : call ∉ hist := fun hmem => hnot (h.complete hroom call hmem)
  have hpid : ∀ a < list.n, (list.top a).pid ≠ call.pid := fun a ha heq => hnot ⟨a, ha, heq⟩
  refine ⟨hroom, by omega, h.write (by omega) (le_refl _) (.inr rfl) (fun hlt => by omega) (absurd · hnew), ?_, ?_, ?_, ?_⟩
  · intro a b ha hb heq
    by_cases han : a = list.n
    · by_cases hbn : b = list.n
      · omega
      · rw [han, update_self, update_of_ne hbn] at heq
        exact absurd heq.symm (hpid b (by omega))
    · by_cases hbn : b = list.n
      · rw [hbn, update_self, update_of_ne han] at heq
        exact absurd heq (hpid a (by omega))
      · rw [update_of_ne han, update_of_ne hbn] at heq
        exact h.distinct a b (by omega) (by omega) heq
  · intro a ha
    exact h.write_current fun han => ⟨by omega, hpid a (by omega)⟩
  · intro _ c hc
    obtain hc | hc := mem_append.mp hc
    · obtain ⟨a, ha, hcpid⟩ := h.complete hroom c hc
      exact ⟨a, by omega, by rwa [update_of_ne (by omega)]⟩
    · exact ⟨list.n, by omega, by rw [update_self, mem_singleton.mp hc]⟩
  · intro _ q v hq hv
    have hne : call.pid ≠ q := by
      have hlast := hq list.n (by omega)
      rwa [update_self] at hlast
    rw [latest_snoc, if_neg hne] at hv
    obtain ⟨a, ha, hapid⟩ := h.complete hroom _ (latest_mem hv)
    exact absurd hapid (by
      have hqa := hq a (by omega)
      rwa [update_of_ne (by omega)] at hqa)

theorem Ranked.replace (h : Ranked hist list) (hfind : list.find call.pid = none) (hn : list.n = rankCount)
    (hbetter : (list.top (rankCount - 1)).value < call.value) (hrising : Rising (hist ++ [call])) :
    Written (hist ++ [call]) (update list.top (rankCount - 1) call) (rankCount - 1) list.n := by
  have hcount : 0 < rankCount := by decide
  have hnot := find_none hfind
  have hnew : call ∉ hist := by
    intro hmem
    have hle := h.best hn call.pid call.value hnot (hrising.known hmem)
    omega
  have hpid : ∀ a < list.n, (list.top a).pid ≠ call.pid := fun a ha heq => hnot ⟨a, ha, heq⟩
  refine ⟨h.bounded, by omega, h.write (by omega) (by omega) (.inl rfl) (fun _ => .inl hbetter) (absurd · hnew), ?_, ?_, ?_, ?_⟩
  · intro a b ha hb heq
    by_cases han : a = rankCount - 1
    · by_cases hbn : b = rankCount - 1
      · omega
      · rw [han, update_self, update_of_ne hbn] at heq
        exact absurd heq.symm (hpid b hb)
    · by_cases hbn : b = rankCount - 1
      · rw [hbn, update_self, update_of_ne han] at heq
        exact absurd heq (hpid a ha)
      · rw [update_of_ne han, update_of_ne hbn] at heq
        exact h.distinct a b ha hb heq
  · intro a ha
    exact h.write_current fun _ => ⟨ha, hpid a ha⟩
  · intro hlt
    omega
  · intro _ q v hq hv a ha
    have hne : call.pid ≠ q := by
      have hlast := hq (rankCount - 1) (by omega)
      rwa [update_self] at hlast
    rw [latest_snoc, if_neg hne] at hv
    have hle : v ≤ (list.top (rankCount - 1)).value := by
      by_cases hevicted : (list.top (rankCount - 1)).pid = q
      · rw [← hevicted, h.current (rankCount - 1) (by omega)] at hv
        exact (some.inj hv).ge
      · refine h.best hn q v (fun ⟨b, hb, hbpid⟩ => ?_) hv
        by_cases hlast : b = rankCount - 1
        · exact hevicted (hlast ▸ hbpid)
        · refine hq b hb ?_
          rwa [update_of_ne hlast]
    by_cases han : a = rankCount - 1
    · rw [han, update_self]
      exact hle.trans hbetter.le
    · rw [update_of_ne han]
      exact hle.trans (h.last_le hn ha)

theorem Ranked.refuse (h : Ranked hist list) (hn : list.n = rankCount) (hworse : call.value ≤ (list.top (rankCount - 1)).value)
    (hrising : Rising (hist ++ [call])) : Ranked (hist ++ [call]) list := by
  obtain ⟨-, -, hlast⟩ := pairwise_append.mp hrising
  refine ⟨h.bounded, ?_, h.distinct, ?_, fun hlt => by omega, ?_⟩
  · exact fun i j hij hj => (h.sorted i j hij hj).snoc (h.mem (by omega)) (h.mem hj)
  · intro i hi
    rw [latest_snoc]
    split
    case isFalse => exact h.current i hi
    case isTrue hpid =>
      -- a player who is listed has the value of the last one
      have hge := hlast _ (h.mem hi) call mem_cons_self hpid.symm
      have hle := hworse.trans (h.last_le hn hi)
      exact congrArg some (le_antisymm hle hge)
  · intro _ pid v hnot hv
    rw [latest_snoc] at hv
    split at hv
    · rwa [← some.inj hv]
    · exact h.best hn pid v hnot hv

theorem rankInsert_keeps (h : Ranked hist list) (hrising : Rising (hist ++ [call])) :
    ∃ list', rankInsert list call = .ok list' ∧ Ranked (hist ++ [call]) list' := by
  unfold rankInsert
  by_cases hfull : list.n ≥ rankCount ∧ call.value ≤ (list.top (rankCount - 1)).value
  · rw [if_pos hfull]
    exact ⟨list, rfl, h.refuse (le_antisymm h.bounded hfull.1) hfull.2 hrising⟩
  rw [if_neg hfull]
  cases hfind : list.find call.pid with
  | some i =>
    obtain ⟨hi, hpid⟩ := find_some hfind
    obtain ⟨-, -, hlast⟩ := pairwise_append.mp hrising
    have hge := hlast _ (h.mem hi) call mem_cons_self hpid
    refine ⟨_, ?_, (h.renew hfind hge hrising).move⟩
    simp only
    rw [assert_of (decide_eq_true hge)]
    rfl
  | none =>
    simp only
    by_cases hroom : list.n < rankCount
    · rw [if_pos hroom]
      exact ⟨_, rfl, (h.append hfind hroom).move⟩
    · rw [if_neg hroom]
      have hn : list.n = rankCount := le_antisymm h.bounded (not_lt.mp hroom)
      have hbetter : (list.top (rankCount - 1)).value < call.value := by
        by_contra hle
        exact hfull ⟨hn.ge, not_lt.mp hle⟩
      exact ⟨_, rfl, (h.replace hfind hn hbetter hrising).move⟩

theorem ranked_empty : Ranked [] .empty :=
  ⟨Nat.zero_le _, fun _ _ _ hj => absurd hj (Nat.not_lt_zero _), fun _ _ hi => absurd hi (Nat.not_lt_zero _),
    fun _ hi => absurd hi (Nat.not_lt_zero _), fun _ _ hc => absurd hc not_mem_nil, fun hn => absurd hn (by decide)⟩

/-- After every history in which no player's value decreases the list holds the best, each with the latest value. -/
theorem rankInsert_run (hist : List RankValue) (hrising : Rising hist) :
    ∃ list, run rankInsert .empty hist = .ok list ∧ Ranked hist list := by
  induction hist using List.reverseRecOn with
  | nil => exact ⟨.empty, rfl, ranked_empty⟩
  | append_singleton hist call ih =>
    obtain ⟨list, hrun, h⟩ := ih (pairwise_append.mp hrising).1
    obtain ⟨list', hinsert, h'⟩ := rankInsert_keeps h hrising
    refine ⟨list', ?_, h'⟩
    rw [run_append hist [call] hrun, run, hinsert]
    rfl

theorem rankInsert_run_three : Rising [⟨1, 5⟩, ⟨2, 4⟩, ⟨2, 6⟩] ∧
    ∃ list, run rankInsert .empty [⟨1, 5⟩, ⟨2, 4⟩, ⟨2, 6⟩] = .ok list ∧ Ranked [⟨1, 5⟩, ⟨2, 4⟩, ⟨2, 6⟩] list := by
  have hrising : Rising [⟨1, 5⟩, ⟨2, 4⟩, ⟨2, 6⟩] := by
    unfold Rising
    decide
  exact ⟨hrising, rankInsert_run _ hrising⟩

end CServer.World
