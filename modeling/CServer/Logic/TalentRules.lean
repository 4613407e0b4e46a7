import CServer.Logic.Talent

/-! # `world/logic/aL.c`: what `aL_talent_update` validates

The loop over the indices refuses points that are not allowed, and adds up what they cost on the way. Read without its
accumulators, it says which strings are allowed and what the change comes to.
-/
namespace CServer.Logic
open CServer.Lib CServer.Modules List

/-! ## Without accumulators -/

def pointsAt (data : List ℤ) (i : ℕ) : ℤ := data.getD i 0 - 48

def TalentConsume.Known (c : TalentConsume) (n : ℤ) : Prop := c.type = 91 → n > 0 → c.id = 1 ∨ c.id = 2

def TalentConsume.need (c : TalentConsume) (k n : ℤ) : ℤ :=
  if c.type = 91 ∧ n > 0 ∧ c.id = k then incrValue c.value c.incr n else 0

def TalentConsume.entry (c : TalentConsume) (o n : ℤ) : List CostConfig :=
  if c.type = 91 then [] else [⟨c.type, c.id, c.change o n⟩]

def TalentSkillConfig.Allowed (cfg : TalentSkillConfig) (level : ℤ) (new : List ℤ) (n : ℤ) : Prop :=
  (n > 0 → cfg.dependLevel ≤ level) ∧ cfg.consume1.Known n ∧ cfg.consume2.Known n ∧ cfg.check new n = .ok ()

section Spec
variable (skill : ℤ → Option TalentSkillConfig)

def IndexAllowed (level : ℤ) (new : List ℤ) (i : ℕ) : Prop :=
  match skill (i + 1) with
  | none => pointsAt new i = 0
  | some cfg => cfg.Allowed level new (pointsAt new i)

def StringAllowed (level : ℤ) (new : List ℤ) : Prop := ∀ i < talentMaximumDataSize, IndexAllowed skill level new i

def needOf (k : ℤ) (new : List ℤ) (is : List ℕ) : ℤ :=
  sumOf (fun i : ℕ =>
    match skill (i + 1) with
    | none => 0
    | some cfg => cfg.consume1.need k (pointsAt new i) + cfg.consume2.need k (pointsAt new i)) is

variable (old new : List ℤ)

def entriesOf (is : List ℕ) : List CostConfig :=
  is.flatMap fun i : ℕ =>
    match skill (i + 1) with
    | none => []
    | some cfg => cfg.consume1.entry (pointsAt old i) (pointsAt new i) ++
        cfg.consume2.entry (pointsAt old i) (pointsAt new i)

def netted (items entries : List CostConfig) : List CostConfig :=
  entries.foldl (fun items e => addChange e.type e.id e.value items) items

def samePoints (i : ℕ) : Bool :=
  (skill (i + 1)).isNone || decide (pointsAt old i = pointsAt new i)

def lowered (i : ℕ) : Bool := (skill (i + 1)).isSome && decide (pointsAt new i < pointsAt old i)

def TalentTally.after (t : TalentTally) (is : List ℕ) : TalentTally where
  items := netted t.items (entriesOf skill old new is)
  needLevel := t.needLevel + needOf skill 1 new is
  needStar := t.needStar + needOf skill 2 new is
  isEqual := t.isEqual && is.all (samePoints skill old new)
  isReset := t.isReset || is.any (lowered skill old new)

end Spec

section Loop
variable {skill : ℤ → Option TalentSkillConfig} {level : ℤ} {old new : List ℤ} {t t' : TalentTally}

theorem talentValue_iff {data : List ℤ} {i : ℕ} {v : ℤ} :
    talentValue data (i + 1) = .ok v ↔ i ≤ data.length ∧ v = pointsAt data i := by
  unfold talentValue charAt pointsAt
  rw [add_sub_cancel_right, Int.toNat_natCast]
  by_cases hi : i ≤ data.length
  · rw [if_pos ⟨Int.natCast_nonneg i, Int.ofNat_le.mpr hi⟩]
    exact ⟨fun h => ⟨hi, (Except.ok.inj h).symm⟩, fun h => congrArg Except.ok h.2.symm⟩
  · rw [if_neg fun h => hi (Int.ofNat_le.mp h.2)]
    exact ⟨(nomatch ·), fun h => absurd h.1 hi⟩

theorem entriesOf_cons (i : ℕ) (is : List ℕ) :
    entriesOf skill old new (i :: is) = entriesOf skill old new [i] ++ entriesOf skill old new is := by
  simp only [entriesOf, flatMap_cons, flatMap_nil, append_nil]

theorem needOf_cons (k : ℤ) (i : ℕ) (is : List ℕ) :
    needOf skill k new (i :: is) = needOf skill k new [i] + needOf skill k new is := by
  simp only [needOf, sumOf_cons, sumOf_nil, add_zero]

theorem after_nil : t.after skill old new [] = t := by
  simp [TalentTally.after, entriesOf, netted, needOf, sumOf_nil]

theorem after_cons (i : ℕ) (is : List ℕ) :
    (t.after skill old new [i]).after skill old new is = t.after skill old new (i :: is) := by
  unfold TalentTally.after
  rw [entriesOf_cons i is, needOf_cons 1 i is, needOf_cons 2 i is]
  simp only [netted, foldl_append, all_cons, all_nil, Bool.and_true, any_cons, any_nil,
    Bool.or_false, add_assoc, Bool.and_assoc, Bool.or_assoc]

theorem consume_ok_iff {o n : ℤ} {c : TalentConsume} : t.consume o n c = .ok t' ↔ c.Known n ∧ t' = { t with
    items := netted t.items (c.entry o n)
    needLevel := t.needLevel + c.need 1 n
    needStar := t.needStar + c.need 2 n } := by
  unfold TalentTally.consume TalentConsume.Known TalentConsume.entry TalentConsume.need
  by_cases hty : c.type = 91
  · by_cases hn : n > 0
    · by_cases h1 : c.id = 1
      · simp [hty, hn, h1, netted, eq_comm]
      · by_cases h2 : c.id = 2
        · simp [hty, hn, h2, netted, eq_comm]
        · simp [hty, hn, h1, h2]
    · simp only [hty, hn, if_true, if_false, netted, foldl_nil, add_zero, and_false, false_and, false_implies,
        implies_true, true_and, Except.ok.injEq]
      exact eq_comm
  · simp [hty, netted, eq_comm]

theorem after_unconfigured {i : ℕ} (h : skill (i + 1) = none) : t.after skill old new [i] = t := by
  simp [TalentTally.after, entriesOf, needOf, sumOf_cons, sumOf_nil, samePoints, lowered, netted, h]

theorem after_configured {i : ℕ} {cfg : TalentSkillConfig} (h : skill (i + 1) = some cfg) :
    t.after skill old new [i] =
      { items := netted (netted t.items (cfg.consume1.entry (pointsAt old i) (pointsAt new i)))
          (cfg.consume2.entry (pointsAt old i) (pointsAt new i))
        needLevel := t.needLevel + cfg.consume1.need 1 (pointsAt new i) + cfg.consume2.need 1 (pointsAt new i)
        needStar := t.needStar + cfg.consume1.need 2 (pointsAt new i) + cfg.consume2.need 2 (pointsAt new i)
        isEqual := t.isEqual && decide (pointsAt old i = pointsAt new i)
        isReset := t.isReset || decide (pointsAt new i < pointsAt old i) } := by
  simp [TalentTally.after, entriesOf, needOf, sumOf_cons, sumOf_nil, samePoints, lowered, netted, h, add_assoc]

theorem talentIndex_ok_iff {i : ℕ} : talentIndex skill level old new t i = .ok t' ↔
    i ≤ old.length ∧ i ≤ new.length ∧ IndexAllowed skill level new i ∧ t' = t.after skill old new [i] := by
  unfold talentIndex IndexAllowed
  constructor
  · intro h
    obtain ⟨o, ho, h⟩ := bind_ok_iff.mp h
    obtain ⟨n, hn, h⟩ := bind_ok_iff.mp h
    obtain ⟨hold, rfl⟩ := talentValue_iff.mp ho
    obtain ⟨hnew, rfl⟩ := talentValue_iff.mp hn
    refine ⟨hold, hnew, ?_⟩
    cases hcfg : skill (i + 1) with
    | none =>
      rw [hcfg] at h
      simp only at h
      rw [after_unconfigured hcfg]
      split at h
      · cases h
      case isFalse hn => exact ⟨not_not.mp hn, (Except.ok.inj h).symm⟩
    | some cfg =>
      rw [hcfg] at h
      simp only at h
      rw [after_configured hcfg]
      split at h
      · cases h
      case isFalse hlevel =>
        obtain ⟨t₁, h1, h⟩ := bind_ok_iff.mp h
        obtain ⟨t₂, h2, h⟩ := bind_ok_iff.mp h
        obtain ⟨_, hcheck, h⟩ := bind_ok_iff.mp h
        obtain ⟨hk1, rfl⟩ := consume_ok_iff.mp h1
        obtain ⟨hk2, rfl⟩ := consume_ok_iff.mp h2
        obtain rfl := Except.ok.inj h
        exact ⟨⟨fun hpos => not_lt.mp fun hlt => hlevel ⟨hpos, hlt⟩, hk1, hk2, hcheck⟩, rfl⟩
  · intro h
    obtain ⟨hold, hnew, hallowed, rfl⟩ := h
    rw [talentValue_iff.mpr ⟨hold, rfl⟩, ok_bind, talentValue_iff.mpr ⟨hnew, rfl⟩, ok_bind]
    cases hcfg : skill (i + 1) with
    | none =>
      rw [hcfg] at hallowed
      rw [after_unconfigured hcfg]
      exact if_neg (not_not.mpr hallowed)
    | some cfg =>
      rw [hcfg] at hallowed
      obtain ⟨hlevel, hk1, hk2, hcheck⟩ := hallowed
      rw [after_configured hcfg]
      simp only
      rw [if_neg fun h => not_lt.mpr (hlevel h.1) h.2, consume_ok_iff.mpr ⟨hk1, rfl⟩, ok_bind,
        consume_ok_iff.mpr ⟨hk2, rfl⟩, ok_bind, hcheck]
      rfl

theorem talentLoop_ok_iff (is : List ℕ) : is.foldlM (talentIndex skill level old new) t = .ok t' ↔
    (∀ i ∈ is, i ≤ old.length ∧ i ≤ new.length ∧ IndexAllowed skill level new i) ∧ t' = t.after skill old new is := by
  induction is generalizing t with
  | nil =>
    rw [after_nil]
    exact ⟨fun h => ⟨fun _ hi => (nomatch hi), (Except.ok.inj h).symm⟩, fun h => congrArg Except.ok h.2.symm⟩
  | cons i is ih =>
    rw [foldlM_cons, ← after_cons]
    constructor
    · intro h
      obtain ⟨t₁, h1, h⟩ := bind_ok_iff.mp h
      obtain ⟨hold, hnew, hallowed, rfl⟩ := talentIndex_ok_iff.mp h1
      obtain ⟨hrest, ht⟩ := ih.mp h
      exact ⟨forall_mem_cons.mpr ⟨⟨hold, hnew, hallowed⟩, hrest⟩, ht⟩
    · intro h
      obtain ⟨⟨hold, hnew, hallowed⟩, hrest⟩ := forall_mem_cons.mp h.1
      rw [talentIndex_ok_iff.mpr ⟨hold, hnew, hallowed, rfl⟩]
      exact ih.mpr ⟨hrest, h.2⟩

end Loop

/-! ## What allowed points keep -/

/-- The points of one index: within their limit, and where there are any, without those they exclude and with those that
they depend on. -/
structure TalentSkillConfig.Kept (cfg : TalentSkillConfig) (new : List ℤ) (n : ℤ) : Prop where
  limit : n ≤ cfg.pointLimit
  apart : n > 0 → ∀ idx ∈ [cfg.mutexId1, cfg.mutexId2], idx ≠ 0 → talentValue new idx = .ok 0
  depends : n > 0 → (cfg.dependId1 = 0 ∧ cfg.dependId2 = 0 ∧ cfg.dependId3 = 0) ∨
    ∃ idx ∈ [cfg.dependId1, cfg.dependId2, cfg.dependId3], idx ≠ 0 ∧ ∃ v, talentValue new idx = .ok v ∧ cfg.dependPoint ≤ v

theorem checkMutex_ok {new : List ℤ} {idx : ℤ} (h : checkMutex new idx = .ok ()) (hidx : idx ≠ 0) :
    talentValue new idx = .ok 0 := by
  rw [checkMutex, if_neg hidx] at h
  obtain ⟨v, hv, h⟩ := bind_ok_iff.mp h
  split at h
  · cases h
  case isFalse h0 => rw [hv, not_not.mp h0]

theorem dependPass_ok {new : List ℤ} {point idx : ℤ} {pass : Bool} (h : dependPass new point pass idx = .ok true) :
    pass = true ∨ idx ≠ 0 ∧ ∃ v, talentValue new idx = .ok v ∧ point ≤ v := by
  unfold dependPass at h
  split at h
  · exact .inl (Except.ok.inj h)
  case isFalse hpass =>
    obtain ⟨v, hv, h⟩ := bind_ok_iff.mp h
    exact .inr ⟨fun h0 => hpass (.inr h0), v, hv, of_decide_eq_true (Except.ok.inj h)⟩

theorem check_sound {cfg : TalentSkillConfig} {new : List ℤ} {n : ℤ} (h : cfg.check new n = .ok ()) : cfg.Kept new n := by
  unfold TalentSkillConfig.check at h
  split at h
  · cases h
  case isFalse hlimit =>
    have hlimit' : n ≤ cfg.pointLimit := not_lt.mp hlimit
    split at h
    case isFalse hn => exact ⟨hlimit', fun hpos => absurd hpos hn, fun hpos => absurd hpos hn⟩
    case isTrue hn =>
      obtain ⟨_, h1, h⟩ := bind_ok_iff.mp h
      obtain ⟨_, h2, h⟩ := bind_ok_iff.mp h
      obtain ⟨p1, hp1, h⟩ := bind_ok_iff.mp h
      obtain ⟨p2, hp2, h⟩ := bind_ok_iff.mp h
      obtain ⟨p3, hp3, h⟩ := bind_ok_iff.mp h
      have hpass : p3 = true := by
        by_contra hp
        rw [eq_false_of_ne_true hp] at h
        cases h
      subst hpass
      refine ⟨hlimit', fun _ idx hidx h0 => ?_, fun _ => ?_⟩
      · simp only [mem_cons, not_mem_nil, or_false] at hidx
        obtain rfl | rfl := hidx
        · exact checkMutex_ok h1 h0
        · exact checkMutex_ok h2 h0
      · obtain hprev | hdep := dependPass_ok hp3
        · subst hprev
          obtain hprev | hdep := dependPass_ok hp2
          · subst hprev
            obtain hfree | hdep := dependPass_ok hp1
            · exact .inl (of_decide_eq_true hfree)
            · exact .inr ⟨_, by simp, hdep⟩
          · exact .inr ⟨_, by simp, hdep⟩
        · exact .inr ⟨_, by simp, hdep⟩

end CServer.Logic
