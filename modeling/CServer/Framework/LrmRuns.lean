import CServer.Lib.Exec
import CServer.Framework.Lrm

/-! # Runs of the resource manager

Allocations and frees of arbitrary ids, in any order and number, with wrap-around of the ids. The
ghost `owned` lists the ids handed out and not freed since, each with the slot it was taken from.
-/
namespace CServer.Framework
open CServer.Lib Function List Nat

inductive LrmOp
  | new
  | free (id : ℕ)

structure LrmState where
  lrm : Lrm
  owned : List (ℕ × ℕ)

def LrmState.init (max : ℕ) : LrmState := ⟨agRMNew max, []⟩

def LrmState.step (s : LrmState) : LrmOp → Except Fault LrmState
  | .new =>
    match agRNew s.lrm with
    | .error e => .error e
    | .ok (id, lrm) =>
      match s.lrm.idle with
      | .res i => .ok ⟨lrm, (id, i) :: s.owned⟩
      | _ => .ok ⟨lrm, s.owned⟩
  | .free id => .ok ⟨agRFree s.lrm id, s.owned.filter (·.1 ≠ id)⟩

theorem LrmState.step_new {s s' : LrmState} (h : s.step .new = .ok s') :
    (s.lrm.idle = .listEnd ∧ s' = s) ∨
    ∃ i, s.lrm.idle = .res i ∧
      s' = ⟨⟨s.lrm.max, (s.lrm.res i).next, update s.lrm.res i ⟨(s.lrm.res i).id, .null⟩⟩,
        ((s.lrm.res i).id, i) :: s.owned⟩ := by
  cases hidle : s.lrm.idle with
  | null => simp [LrmState.step, agRNew, hidle] at h
  | listEnd =>
    simp only [LrmState.step, agRNew, hidle, Except.ok.injEq] at h
    exact .inl ⟨rfl, h.symm⟩
  | res i =>
    simp only [LrmState.step, agRNew, hidle, Except.ok.injEq] at h
    exact .inr ⟨i, rfl, h.symm⟩

variable {lrm : Lrm}

theorem agRGet_some {id i : ℕ} (h : agRGet lrm id = some i) :
    i < lrm.max ∧ i = id % lrm.max ∧ (lrm.res i).id = id := by
  simp only [agRGet, getLresource, getLresourceByIndex] at h
  by_cases hlt : lrm.max ≤ id % lrm.max
  · simp [hlt] at h
  · simp only [hlt, if_false] at h
    by_cases hid : (lrm.res (id % lrm.max)).id = id
    · simp only [hid, ne_eq, not_true_eq_false, if_false, Option.some.injEq] at h
      subst h
      exact ⟨not_le.mp hlt, rfl, hid⟩
    · simp [hid] at h

theorem agRGet_self {i : ℕ} (hi : i < lrm.max) (hslot : (lrm.res i).id % lrm.max = i) :
    agRGet lrm (lrm.res i).id = some i := by
  simp [agRGet, getLresource, getLresourceByIndex, hslot, not_le.mpr hi]

theorem agRFree_of_none {id : ℕ} (h : agRGet lrm id = none) : agRFree lrm id = lrm := by
  rw [agRGet] at h
  rw [agRFree, h]

theorem agRFree_of_some {id i : ℕ} (h : agRGet lrm id = some i) :
    agRFree lrm id = ⟨lrm.max, .res i, update lrm.res i ⟨newId lrm.max id, lrm.idle⟩⟩ := by
  have hid := (agRGet_some h).2.2
  rw [agRGet] at h
  rw [agRFree, h]
  simp only [hid]

/-! ## Slot congruence -/

/-- Slot `i` carries a valid id congruent to `i`, and what was handed out resolves to its slot. -/
structure LrmState.Congruent (s : LrmState) : Prop where
  slot : ∀ i < s.lrm.max, (s.lrm.res i).id % s.lrm.max = i ∧ (s.lrm.res i).id ≠ invalidId
  resolves : ∀ p ∈ s.owned, agRGet s.lrm p.1 = some p.2

def LrmState.NoWrap (s : LrmState) : LrmOp → Prop
  | .new => True
  | .free id => agRGet s.lrm id ≠ none → unwrappedId s.lrm.max id < 2 ^ 32

theorem newId_mod_of_dvd {max id : ℕ} (hdvd : max ∣ 2 ^ 32) : newId max id % max = id % max := by
  simp only [newId]
  split
  · rw [mod_mod_of_dvd _ hdvd, add_mod_right, mod_mod_of_dvd _ hdvd, add_mod_right]
  · rw [mod_mod_of_dvd _ hdvd, add_mod_right]

theorem newId_mod_of_wrap {max id : ℕ} (hpos : 1 ≤ max) (hlt : max < 2 ^ 31) (hid : id < 2 ^ 32)
    (hwrap : 2 ^ 32 ≤ unwrappedId max id) (hmod : newId max id % max = id % max) : max ∣ 2 ^ 32 := by
  have hinv : invalidId = 2 ^ 32 - 1 := rfl
  have hsum : ∃ k, newId max id + 2 ^ 32 = id + k * max := by
    unfold unwrappedId at hwrap
    simp only [newId]
    by_cases hc : id + max = invalidId
    · have e : (id + max) % 2 ^ 32 = invalidId := by omega
      rw [if_pos e, e]
      exact ⟨2, by omega⟩
    · rw [if_neg hc] at hwrap
      have e : (id + max) % 2 ^ 32 ≠ invalidId := by omega
      rw [if_neg e]
      exact ⟨1, by omega⟩
  obtain ⟨k, hk⟩ := hsum
  have hmodEq : newId max id + 2 ^ 32 ≡ newId max id + 0 [MOD max] := by
    have h1 : id + k * max ≡ id [MOD max] := by simp [Nat.ModEq]
    have h2 : id ≡ newId max id [MOD max] := hmod.symm
    rw [hk]
    exact h1.trans h2
  exact (modEq_zero_iff_dvd).mp (Nat.ModEq.add_left_cancel' _ hmodEq)

theorem newId_mod_iff {max id : ℕ} (hpos : 1 ≤ max) (hlt : max < 2 ^ 31) (hid : id < 2 ^ 32) :
    newId max id % max = id % max ↔ max ∣ 2 ^ 32 ∨ unwrappedId max id < 2 ^ 32 := by
  constructor
  · intro hmod
    by_cases hwrap : unwrappedId max id < 2 ^ 32
    · exact .inr hwrap
    · exact .inl (newId_mod_of_wrap hpos hlt hid (not_lt.mp hwrap) hmod)
  · rintro (hdvd | hwrap)
    · exact newId_mod_of_dvd hdvd
    · rw [(newId_unwrapped hpos hwrap).1, add_mod_right]

/-- What every run keeps: links stay inside the table, ids are 32-bit, and a slot handed out
carries the id it was handed out with. -/
structure LrmState.Inside (max : ℕ) (s : LrmState) : Prop where
  max_eq : s.lrm.max = max
  idle : ∀ i, s.lrm.idle = .res i → i < max
  next : ∀ j < max, ∀ i, (s.lrm.res j).next = .res i → i < max
  valid : ∀ i < max, (s.lrm.res i).id < invalidId
  owned : ∀ p ∈ s.owned, p.2 < max ∧ (s.lrm.res p.2).id = p.1

variable {max : ℕ}

theorem LrmState.init_inside (hpos : 1 ≤ max) (hlt : max < 2 ^ 31) : (init max).Inside max := by
  have hok := agRMNew_ok max hpos hlt
  have hmax : (agRMNew max).max = max := agRMNew_max max
  have hidle := agRMNew_idle max
  refine ⟨hmax, fun i hi => ?_, fun j hj i hi => ?_, fun i hi => hok.valid i (hmax.symm ▸ hi), ?_⟩
  · rcases hidle.head_mem with hn | ⟨y, hy, hn⟩
    · exact absurd (hi.symm.trans hn) (by simp)
    · obtain rfl := Link.res.inj (hi.symm.trans hn)
      exact mem_range.mp hy
  · rcases hidle.next_mem (mem_range.mpr hj) with hn | ⟨y, hy, hn⟩
    · exact absurd (hi.symm.trans hn) (by simp)
    · obtain rfl := Link.res.inj (hi.symm.trans hn)
      exact mem_range.mp hy
  · intro p hp
    exact absurd hp (by simp [init])

theorem LrmState.Inside.step {max : ℕ} (hpos : 1 ≤ max) (hlt : max < 2 ^ 31) {s s' : LrmState}
    (h : s.Inside max) {op : LrmOp} (hstep : s.step op = .ok s') : s'.Inside max := by
  cases op with
  | new =>
    rcases step_new hstep with ⟨-, rfl⟩ | ⟨i, hidle, rfl⟩
    · exact h
    have hi := h.idle i hidle
    refine ⟨h.max_eq, h.next i hi, fun j hj k hk => ?_, fun j hj => ?_, fun p hp => ?_⟩
    · by_cases hji : j = i
      · subst hji
        simp at hk
      · simp only [update_of_ne hji] at hk
        exact h.next j hj k hk
    · simp only [agRNew_res_id]
      exact h.valid j hj
    · simp only [agRNew_res_id]
      rcases mem_cons.mp hp with rfl | hp
      · exact ⟨hi, rfl⟩
      · exact h.owned p hp
  | free id =>
    obtain rfl : _ = s' := Except.ok.inj hstep
    cases hget : agRGet s.lrm id with
    | none =>
      simp only [agRFree_of_none hget]
      exact ⟨h.max_eq, h.idle, h.next, h.valid, fun p hp => h.owned p (mem_of_mem_filter hp)⟩
    | some i =>
      obtain ⟨hi, -, hid⟩ := agRGet_some hget
      rw [h.max_eq] at hi
      simp only [agRFree_of_some hget]
      refine ⟨h.max_eq, fun j hj => ?_, fun j hj k hk => ?_, fun j hj => ?_, fun p hp => ?_⟩
      · obtain rfl := Link.res.inj hj
        exact hi
      · by_cases hji : j = i
        · subst hji
          simp only [update_self] at hk
          exact h.idle k hk
        · simp only [update_of_ne hji] at hk
          exact h.next j hj k hk
      · by_cases hji : j = i
        · subst hji
          simp only [update_self, h.max_eq]
          exact newId_ne_invalid hpos hlt
        · simp only [update_of_ne hji]
          exact h.valid j hj
      · obtain ⟨hmem, hne⟩ := mem_filter.mp hp
        have hpi : p.2 ≠ i := by
          intro he
          have hpid := (h.owned p hmem).2
          rw [he, hid] at hpid
          exact of_decide_eq_true hne hpid.symm
        simp only [update_of_ne hpi]
        exact h.owned p hmem

theorem LrmState.Inside.congruent_iff {s : LrmState} (h : s.Inside max) :
    s.Congruent ↔ ∀ i < max, (s.lrm.res i).id % max = i := by
  have hmax := h.max_eq
  constructor
  · intro hc i hi
    have hslot := (hc.slot i (hmax.symm ▸ hi)).1
    rwa [hmax] at hslot
  · intro hc
    refine ⟨fun i hi => ?_, fun p hp => ?_⟩
    · rw [hmax] at hi ⊢
      exact ⟨hc i hi, Nat.ne_of_lt (h.valid i hi)⟩
    · obtain ⟨hlt, hid⟩ := h.owned p hp
      rw [← hid]
      exact agRGet_self (hmax.symm ▸ hlt) (by rw [hmax]; exact hc _ hlt)

theorem LrmState.Congruent.step_iff (hpos : 1 ≤ max) (hlt : max < 2 ^ 31) {s s' : LrmState}
    (hin : s.Inside max) (h : s.Congruent) {op : LrmOp} (hstep : s.step op = .ok s') :
    s'.Congruent ↔ max ∣ 2 ^ 32 ∨ s.NoWrap op := by
  have hmax := hin.max_eq
  have hold := hin.congruent_iff.mp h
  rw [(hin.step hpos hlt hstep).congruent_iff]
  cases op with
  | new =>
    refine ⟨fun _ => .inr trivial, fun _ i hi => ?_⟩
    rcases step_new hstep with ⟨-, rfl⟩ | ⟨j, -, rfl⟩
    · exact hold i hi
    · simp only [agRNew_res_id]
      exact hold i hi
  | free id =>
    obtain rfl : _ = s' := Except.ok.inj hstep
    cases hget : agRGet s.lrm id with
    | none =>
      simp only [agRFree_of_none hget, NoWrap, hget, ne_eq, not_true_eq_false, false_imp_iff, or_true, iff_true]
      exact hold
    | some j =>
      obtain ⟨hj, -, hid⟩ := agRGet_some hget
      rw [hmax] at hj
      simp only [agRFree_of_some hget, NoWrap, hget, hmax, ne_eq, reduceCtorEq, not_false_eq_true,
        forall_const]
      have hidmod : id % max = j := by rw [← hid]; exact hold j hj
      have hid32 : id < 2 ^ 32 := by
        have := hin.valid j hj
        rw [hid, invalidId] at this
        omega
      have hiff : (∀ i < max, (update s.lrm.res j ⟨newId max id, s.lrm.idle⟩ i).id % max = i) ↔
          newId max id % max = id % max := by
        rw [hidmod]
        constructor
        · intro hall
          have := hall j hj
          rwa [update_self] at this
        · intro hnew i hi
          by_cases hij : i = j
          · subst hij
            rwa [update_self]
          · rw [update_of_ne hij]
            exact hold i hi
      rw [hiff]
      exact newId_mod_iff hpos hlt hid32

theorem LrmState.init_congruent (hpos : 1 ≤ max) (hlt : max < 2 ^ 31) : (init max).Congruent := by
  have hok := agRMNew_ok max hpos hlt
  exact ⟨fun i hi => ⟨hok.slot i hi, Nat.ne_of_lt (hok.valid i hi)⟩, fun p hp => absurd hp (by simp [init])⟩

theorem LrmState.congruent_throughout (hpos : 1 ≤ max) (hlt : max < 2 ^ 31) (ops : List LrmOp) :
    ∀ s : LrmState, s.Inside max → s.Congruent →
      (Throughout LrmState.step Congruent s ops ↔ max ∣ 2 ^ 32 ∨ Along LrmState.step NoWrap s ops) := by
  induction ops with
  | nil => exact fun s _ hc => ⟨fun _ => .inr trivial, fun _ => hc⟩
  | cons op ops ih =>
    intro s hin hc
    by_cases hdvd : max ∣ 2 ^ 32
    · refine ⟨fun _ => .inl hdvd, fun _ => ⟨hc, fun s' hs' => ?_⟩⟩
      have hc' := (hc.step_iff hpos hlt hin hs').mpr (.inl hdvd)
      exact (ih s' (hin.step hpos hlt hs') hc').mpr (.inl hdvd)
    · simp only [hdvd, false_or] at ih ⊢
      constructor
      · rintro ⟨-, hrest⟩
        have hG : s.NoWrap op ∧ ∀ s', s.step op = .ok s' → s'.Congruent := by
          cases op with
          | new => exact ⟨trivial, fun s' hs' => (hrest s' hs').head⟩
          | free id =>
            have hfree : s.step (.free id) = .ok _ := rfl
            rcases (hc.step_iff hpos hlt hin hfree).mp (hrest _ hfree).head with hd | hG
            · exact absurd hd hdvd
            · exact ⟨hG, fun s' hs' => (hrest s' hs').head⟩
        exact ⟨hG.1, fun s' hs' => (ih s' (hin.step hpos hlt hs') (hG.2 s' hs')).mp (hrest s' hs')⟩
      · rintro ⟨hG, hrest⟩
        refine ⟨hc, fun s' hs' => ?_⟩
        have hc' := (hc.step_iff hpos hlt hin hs').mpr (.inr hG)
        exact (ih s' (hin.step hpos hlt hs') hc').mpr (hrest s' hs')

/-- In a run from a new manager every slot stays congruent, and every id handed out resolves to its
slot, exactly when `max` divides 2^32 or no free takes an id past 2^32. -/
theorem lrm_ids_congruent_iff (hpos : 1 ≤ max) (hlt : max < 2 ^ 31) (ops : List LrmOp) :
    Throughout LrmState.step LrmState.Congruent (LrmState.init max) ops ↔
      max ∣ 2 ^ 32 ∨ Along LrmState.step LrmState.NoWrap (LrmState.init max) ops :=
  LrmState.congruent_throughout hpos hlt ops _ (LrmState.init_inside hpos hlt) (LrmState.init_congruent hpos hlt)

theorem lrm_ids_congruent_two_slots :
    Throughout LrmState.step LrmState.Congruent (LrmState.init 2) [.new, .free 0, .new, .new] :=
  (lrm_ids_congruent_iff (by decide) (by decide) _).mpr (.inl (by norm_num))

def reuse (max : ℕ) : ℕ → ℕ → List LrmOp
  | _, 0 => []
  | k, n + 1 => .new :: .free (k * max) :: reuse max (k + 1) n

theorem LrmState.reuse_step {max k : ℕ} (hpos : 1 ≤ max) {s : LrmState} (hmax : s.lrm.max = max)
    (hidle : s.lrm.idle = .res 0) (hid : (s.lrm.res 0).id = k * max) :
    ∃ s₁ s₂, s.step .new = .ok s₁ ∧ s₁.step (.free (k * max)) = .ok s₂ ∧ s₂.lrm.max = max ∧
      s₂.lrm.idle = .res 0 ∧ (s₂.lrm.res 0).id = newId max (k * max) := by
  have hnew : s.step .new = .ok ⟨⟨s.lrm.max, (s.lrm.res 0).next,
      update s.lrm.res 0 ⟨(s.lrm.res 0).id, .null⟩⟩, ((s.lrm.res 0).id, 0) :: s.owned⟩ := by
    simp only [step, agRNew, hidle]
  refine ⟨_, _, hnew, rfl, ?_⟩
  have hget : agRGet ⟨s.lrm.max, (s.lrm.res 0).next, update s.lrm.res 0
      ⟨(s.lrm.res 0).id, .null⟩⟩ (k * max) = some 0 := by
    have h := @agRGet_self ⟨s.lrm.max, (s.lrm.res 0).next, update s.lrm.res 0
      ⟨(s.lrm.res 0).id, .null⟩⟩ 0 (by rw [hmax]; omega) (by simp [hid, hmax])
    simpa only [update_self, hid] using h
  rw [agRFree_of_some hget]
  exact ⟨hmax, rfl, by simp [hmax]⟩

theorem LrmState.reuse_run (hpos : 1 ≤ max) (n : ℕ) : ∀ (k : ℕ) (s : LrmState), s.lrm.max = max →
    s.lrm.idle = .res 0 → (s.lrm.res 0).id = k * max → (k + n) * max < invalidId →
    ∃ s', run LrmState.step s (reuse max k n) = .ok s' ∧ s'.lrm.max = max ∧ s'.lrm.idle = .res 0 ∧
      (s'.lrm.res 0).id = (k + n) * max := by
  induction n with
  | zero => exact fun k s hmax hidle hid _ => ⟨s, rfl, hmax, hidle, by simpa using hid⟩
  | succ n ih =>
    intro k s hmax hidle hid hlt
    obtain ⟨s₁, s₂, h1, h2, hmax₂, hidle₂, hid₂⟩ := reuse_step hpos hmax hidle hid
    have hk : k * max + max ≤ (k + (n + 1)) * max := by
      have : (k + (n + 1)) * max = k * max + max + n * max := by ring
      omega
    have hnew : newId max (k * max) = (k + 1) * max := by
      have hinv : invalidId = 2 ^ 32 - 1 := rfl
      rw [(newId_unwrapped hpos _).1, succ_mul]
      unfold unwrappedId
      rw [if_neg (by omega)]
      omega
    rw [hnew] at hid₂
    have e : k + 1 + n = k + (n + 1) := by omega
    obtain ⟨s', hrun, hrest⟩ := ih (k + 1) s₂ hmax₂ hidle₂ hid₂ (by rw [e]; exact hlt)
    rw [e] at hrest
    refine ⟨s', ?_, hrest⟩
    simp only [reuse, run, h1, h2]
    exact hrun

theorem LrmState.init_first (hpos : 1 ≤ max) :
    (init max).lrm.max = max ∧ (init max).lrm.idle = .res 0 ∧ ((init max).lrm.res 0).id = 0 * max := by
  refine ⟨agRMNew_max max, ?_, ?_⟩
  · have hidle := agRMNew_idle max
    obtain ⟨n, rfl⟩ := exists_succ_of_lt hpos
    rw [range_succ_eq_map] at hidle
    exact hidle.1
  · rw [init, agRMNew, initLrmIdleList, initLoop_id]
    simp

/-- The 2000 connection slots of the servers: after 2147484 reuses slot 0 carries the id 704. -/
theorem lrm_ids_not_congruent : ¬ ∀ max, 1 ≤ max → max < 2 ^ 31 → ∀ ops : List LrmOp,
    Throughout LrmState.step LrmState.Congruent (LrmState.init max) ops := by
  intro hall
  obtain ⟨hmax, hidle, hid⟩ := @LrmState.init_first 2000 (by norm_num)
  obtain ⟨s, hrun, hmax₀, hidle₀, hid₀⟩ := LrmState.reuse_run (by norm_num) 2147483 0 (LrmState.init 2000)
    hmax hidle hid (by norm_num [invalidId])
  rw [Nat.zero_add] at hid₀
  obtain ⟨s₁, s₂, h1, h2, hmax₂, -, hid₂⟩ := LrmState.reuse_step (by norm_num) hmax₀ hidle₀ hid₀
  have hend : run LrmState.step (LrmState.init 2000)
      (reuse 2000 0 2147483 ++ [.new, .free (2147483 * 2000)]) = .ok s₂ := by
    rw [run_append _ _ hrun]
    simp only [run, h1, h2]
  have hlast := (hall 2000 (by norm_num) (by norm_num) _).last hend
  have hslot := (hlast.slot 0 (by rw [hmax₂]; norm_num)).1
  rw [hid₂, hmax₂] at hslot
  revert hslot
  decide

/-! ## Stale ids -/

def Lrm.waiting (lrm : Lrm) (id : ℕ) : Prop := ∃ i, agRGet lrm id = some i ∧ ¬ lrm.inUse i

def LrmState.NotWaiting (s : LrmState) : LrmOp → Prop
  | .new => True
  | .free id => ¬ s.lrm.waiting id

/-- The idle list is intact and every slot has at most one owner. A slot in use whose id still
leads to it is owned under that id; after a wrap there may be slots that no id leads to. -/
structure LrmState.Sound (s : LrmState) : Prop where
  idle : s.lrm.IdleListed
  once : (s.owned.map Prod.snd).Nodup
  owned : ∀ p ∈ s.owned, p.2 < s.lrm.max ∧ s.lrm.inUse p.2 ∧ (s.lrm.res p.2).id = p.1
  used : ∀ i < s.lrm.max, s.lrm.inUse i → (s.lrm.res i).id % s.lrm.max = i →
    ((s.lrm.res i).id, i) ∈ s.owned

theorem LrmState.init_sound (hpos : 1 ≤ max) (hlt : max < 2 ^ 31) : (init max).Sound := by
  refine ⟨(agRMNew_ok max hpos hlt).idle, nodup_nil, fun p hp => absurd hp (by simp [init]), ?_⟩
  intro i hi huse
  have hmem : i ∈ List.range max := mem_range.mpr (agRMNew_max max ▸ hi)
  exact absurd huse ((agRMNew_idle max).not_inUse hmem)

theorem LrmState.Sound.new {s : LrmState} (h : s.Sound) : ∃ s', s.step .new = .ok s' ∧ s'.Sound := by
  rcases h.idle.new_cases with ⟨hidle, hnew, -⟩ | ⟨i, lrm', hi, huse, hidle, hnew, hlisted, hmax, hres⟩
  · exact ⟨s, by simp only [step, hnew, hidle], h⟩
  refine ⟨⟨lrm', ((s.lrm.res i).id, i) :: s.owned⟩, by simp only [step, hnew, hidle], hlisted, ?_, ?_, ?_⟩
  · rw [map_cons, nodup_cons]
    refine ⟨fun hmem => ?_, h.once⟩
    obtain ⟨p, hp, rfl⟩ := mem_map.mp hmem
    exact huse (h.owned p hp).2.1
  · intro p hp
    simp only [hmax, hres, agRNew_res_id, agRNew_inUse hres]
    rcases mem_cons.mp hp with rfl | hp
    · exact ⟨hi, .inl rfl, rfl⟩
    · obtain ⟨h1, h2, h3⟩ := h.owned p hp
      exact ⟨h1, .inr h2, h3⟩
  · intro j hj huse' hslot
    simp only [hmax, hres, agRNew_res_id, agRNew_inUse hres] at hj huse' hslot ⊢
    rcases huse' with rfl | huse'
    · exact mem_cons_self ..
    · exact mem_cons_of_mem _ (h.used j hj huse' hslot)

theorem LrmState.Sound.free {s : LrmState} (h : s.Sound) {id : ℕ} (hwait : ¬ s.lrm.waiting id) :
    LrmState.Sound ⟨agRFree s.lrm id, s.owned.filter (·.1 ≠ id)⟩ := by
  have honce : ((s.owned.filter (·.1 ≠ id)).map Prod.snd).Nodup :=
    h.once.sublist (filter_sublist.map _)
  cases hget : agRGet s.lrm id with
  | none =>
    rw [agRFree_of_none hget]
    refine ⟨h.idle, honce, fun p hp => h.owned p (mem_of_mem_filter hp), fun i hi huse hslot => ?_⟩
    refine mem_filter.mpr ⟨h.used i hi huse hslot, decide_eq_true ?_⟩
    intro he
    have hself := agRGet_self hi hslot
    rw [show (s.lrm.res i).id = id from he, hget] at hself
    cases hself
  | some i =>
    obtain ⟨hi, hmod, hid⟩ := agRGet_some hget
    have huse : s.lrm.inUse i := by
      by_contra hn
      exact hwait ⟨i, hget, hn⟩
    rw [agRFree_of_some hget]
    have huses : ∀ j, Lrm.inUse ⟨s.lrm.max, .res i,
        update s.lrm.res i ⟨newId s.lrm.max id, s.lrm.idle⟩⟩ j ↔ j ≠ i ∧ s.lrm.inUse j :=
      fun j => agRFree_inUse h.idle rfl
    refine ⟨h.idle.free hi huse _, honce, fun p hp => ?_, fun j hj huse' hslot => ?_⟩
    · obtain ⟨hmem, hne⟩ := mem_filter.mp hp
      obtain ⟨h1, h2, h3⟩ := h.owned p hmem
      have hpi : p.2 ≠ i := by
        intro he
        rw [he, hid] at h3
        exact of_decide_eq_true hne h3.symm
      refine ⟨h1, (huses _).mpr ⟨hpi, h2⟩, ?_⟩
      simp only [update_of_ne hpi]
      exact h3
    · obtain ⟨hji, hju⟩ := (huses j).mp huse'
      simp only [update_of_ne hji] at hslot ⊢
      refine mem_filter.mpr ⟨h.used j hj hju hslot, decide_eq_true ?_⟩
      intro he
      rw [show (s.lrm.res j).id = id from he] at hslot
      exact hji (hslot.symm.trans hmod.symm)

theorem LrmState.Sound.step {s : LrmState} (h : s.Sound) {op : LrmOp} (hG : s.NotWaiting op) :
    ∃ s', s.step op = .ok s' ∧ s'.Sound := by
  cases op with
  | new => exact h.new
  | free id => exact ⟨_, rfl, h.free hG⟩

theorem LrmState.Sound.stale_iff {s : LrmState} (h : s.Sound) {id : ℕ} (hno : ∀ i, (id, i) ∉ s.owned) :
    agRGet s.lrm id = none ∧ agRFree s.lrm id = s.lrm ↔ ¬ s.lrm.waiting id := by
  constructor
  · rintro ⟨hnone, -⟩ ⟨i, hsome, -⟩
    rw [hnone] at hsome
    cases hsome
  · intro hwait
    have hnone : agRGet s.lrm id = none := by
      cases hget : agRGet s.lrm id with
      | none => rfl
      | some i =>
        obtain ⟨hi, hmod, hid⟩ := agRGet_some hget
        by_cases huse : s.lrm.inUse i
        · have hmem := h.used i hi huse (by rw [hid]; exact hmod.symm)
          rw [hid] at hmem
          exact absurd hmem (hno i)
        · exact absurd ⟨i, hget, huse⟩ hwait
    exact ⟨hnone, agRFree_of_none hnone⟩

/-- In a run whose frees are all of ids that no idle slot is waiting with: no fault, the idle list
stays intact, no slot gets two owners, and an id that is not allocated is harmless exactly when no
idle slot is waiting with it. -/
theorem lrm_stale_ids (hpos : 1 ≤ max) (hlt : max < 2 ^ 31) (ops : List LrmOp)
    (hops : Along LrmState.step LrmState.NotWaiting (LrmState.init max) ops) :
    ∃ s, run LrmState.step (LrmState.init max) ops = .ok s ∧ s.lrm.IdleListed ∧
      (s.owned.map Prod.snd).Nodup ∧ (∀ p ∈ s.owned, s.lrm.inUse p.2) ∧
      ∀ id, (∀ i, (id, i) ∉ s.owned) →
        (agRGet s.lrm id = none ∧ agRFree s.lrm id = s.lrm ↔ ¬ s.lrm.waiting id) := by
  obtain ⟨s, hrun, hs⟩ := run_ok (fun s op hs hG => LrmState.Sound.step (s := s) hs hG) ops _
    (LrmState.init_sound hpos hlt) hops
  exact ⟨s, hrun, hs.idle, hs.once, fun p hp => (hs.owned p hp).2.1, fun id hno => hs.stale_iff hno⟩

theorem not_waiting_of_inUse {id i : ℕ} (hget : agRGet lrm id = some i) (huse : lrm.inUse i) :
    ¬ lrm.waiting id := by
  rintro ⟨j, hj, hju⟩
  rw [hget] at hj
  exact hju (Option.some.inj hj ▸ huse)

theorem not_waiting_of_none {id : ℕ} (hget : agRGet lrm id = none) : ¬ lrm.waiting id := by
  rintro ⟨j, hj, -⟩
  rw [hget] at hj
  cases hj

theorem lrm_stale_ids_double_free :
    ∃ s, run LrmState.step (LrmState.init 2) [.new, .free 0, .free 0] = .ok s ∧ s.lrm.IdleListed := by
  have hops : Along LrmState.step LrmState.NotWaiting (LrmState.init 2) [.new, .free 0, .free 0] :=
    .cons trivial rfl (.cons (not_waiting_of_inUse (i := 0) rfl rfl) rfl
      (.cons (not_waiting_of_none rfl) rfl trivial))
  obtain ⟨s, hrun, hidle, -⟩ := lrm_stale_ids (by decide) (by decide) _ hops
  exact ⟨s, hrun, hidle⟩

/-- On a new manager the id 0, never handed out, resolves; freeing it links slot 0 to itself, and the
next two allocations both return slot 0 under the id 2. -/
theorem lrm_stale_id_shared :
    (¬ ∀ max, 1 ≤ max → max < 2 ^ 31 → ∀ ops s, run LrmState.step (LrmState.init max) ops = .ok s →
      ∀ id, (∀ i, (id, i) ∉ s.owned) → agRGet s.lrm id = none ∧ agRFree s.lrm id = s.lrm) ∧
    ∃ s, run LrmState.step (LrmState.init 2) [.free 0, .new, .new] = .ok s ∧ s.owned = [(2, 0), (2, 0)] := by
  refine ⟨fun hall => ?_, _, rfl, rfl⟩
  have h0 := hall 2 (by decide) (by decide) [] _ rfl 0 (by simp [LrmState.init])
  have h1 : agRGet (agRMNew 2) 0 = some 0 := rfl
  exact absurd (h1.symm.trans h0.1) (by simp)

end CServer.Framework
