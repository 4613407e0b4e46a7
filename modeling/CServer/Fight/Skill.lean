import CServer.Fight.Property

/-! # `fight/battlefield/Skill.lua`: checking whether a skill can be cast

`Check` merges the property list of the skill into the properties of its owner, looks at the cooldown, at what the
skill consumes, at the seal (7002) and at the targets its check script finds, and takes the list out again. What the
script finds at each of its two calls is chosen by the run; the script changes nothing.
-/
namespace CServer.Fight
open CServer.Lib List

variable {K V M T : Type}

structure SkillKeys (K : Type) where
  id : ℕ → K
  mp : K
  ep : K
  fp : K

def consumeTypeMap (names : SkillKeys K) : ℕ → Option (K × String)
  | 8000 => some (names.mp, "法力")
  | 8001 => some (names.ep, "能量")
  | 8002 => some (names.fp, "怒气")
  | _ => none

/-- `propertyList` and `consumeType` are fields of `cfg`. -/
structure Skill (K V M T : Type) where
  uuid : M
  property : Property K V M
  propertyList : Option (K → Option V)
  consumeType : Option ℕ
  currentCd : V
  originId : Option ℕ
  checkScript : Bool
  targetList : List T
  errorInfo : Option String

structure SkillOwner (K V M : Type) where
  cfg : K → Option V
  property : Property K V M

/-- What the check script returns: for a sealed owner, and at the end. -/
structure ScriptTargets (T : Type) where
  sealed : Option (List T)
  last : Option (List T)

section Model
variable [DecidableEq K] [DecidableEq M] [AddCommGroup V] [LinearOrder V]

namespace Skill

def list (sk : Skill K V M T) : K → Option V := sk.propertyList.getD fun _ => none

def merge (sk : Skill K V M T) (owner : SkillOwner K V M) : SkillOwner K V M :=
  { owner with property := owner.property.add sk.uuid sk.list }

def unmerge (sk : Skill K V M T) (owner : SkillOwner K V M) : SkillOwner K V M :=
  { owner with property := owner.property.remove sk.uuid }

end Skill

def SkillOwner.get (fs : Formulas K V) (owner : SkillOwner K V M) (key : K) : Except Fault (V × SkillOwner K V M) :=
  match owner.cfg key with
  | some v => .ok (v, owner)
  | none => (owner.property.getter fs key).map fun r => (r.1, { owner with property := r.2 })

namespace Skill
variable (fs : Formulas K V) (names : SkillKeys K)

variable (sk : Skill K V M T)

variable (owner : SkillOwner K V M)

def checkConsume :
    Except Fault (Option String × Skill K V M T × SkillOwner K V M) :=
  match sk.consumeType with
  | none => .ok (none, sk, owner)
  | some type =>
    match consumeTypeMap names type with
    | none => .ok (none, sk, owner)
    | some (key, name) => do
      let (cost, p) ← sk.property.getter fs (names.id type)
      let (left, q) ← owner.property.getter fs key
      .ok (if left < cost then some name else none, { sk with property := p }, { owner with property := q })

/-- `self.target_list = self.check_script:Call() or {}`, where the script is called. -/
def callScript (call : Bool) (found : Option (List T)) : Skill K V M T :=
  if call then { sk with targetList := found.getD [] } else sk

def checkTargets (simpleCheck : Bool) (found : ScriptTargets T) :
    Except Fault (Bool × Skill K V M T × SkillOwner K V M) := do
  let (value, owner) ← owner.get fs (names.id 7002)
  let isSealed := decide (0 < value) && decide (sk.originId ≠ some 0)
  let sk := sk.callScript (isSealed && sk.checkScript) found.sealed
  if isSealed && sk.targetList.isEmpty then
    .ok (false, { sk with errorInfo := some "封印状态下无法使用该技能" }, owner)
  else
    let sk := sk.callScript (sk.checkScript && !simpleCheck) found.last
    if sk.checkScript && !simpleCheck && sk.targetList.isEmpty then
      .ok (false, { sk with errorInfo := some "没有可用目标" }, owner)
    else .ok (true, sk, sk.unmerge owner)

def check (simpleCheck : Bool) (found : ScriptTargets T) :
    Except Fault (Bool × Skill K V M T × SkillOwner K V M) :=
  let sk := { sk with targetList := [] }
  let owner := sk.merge owner
  if 0 < sk.currentCd then .ok (false, { sk with errorInfo := some "技能冷却中" }, sk.unmerge owner)
  else do
    let (short, sk, owner) ← sk.checkConsume fs names owner
    match short with
    | some name => .ok (false, { sk with errorInfo := some (name ++ "不足") }, sk.unmerge owner)
    | none => sk.checkTargets fs names owner simpleCheck found

/-! ## Where a check ends -/

def cost (type : ℕ) : V :=
  match sk.property.getter fs (names.id type) with
  | .ok r => r.1
  | .error _ => 0

def Lacks : Prop :=
  ∃ type ∈ sk.consumeType, ∃ r ∈ consumeTypeMap names type,
    (sk.merge owner).property.toBase.read fs r.1 < sk.cost fs names type

def Sealed : Prop :=
  0 < (owner.cfg (names.id 7002)).getD ((sk.merge owner).property.toBase.read fs (names.id 7002)) ∧ sk.originId ≠ some 0

def Targetless (simpleCheck : Bool) (found : ScriptTargets T) : Prop :=
  ¬ 0 < sk.currentCd ∧ ¬ sk.Lacks fs names owner ∧
    ((sk.Sealed fs names owner ∧ (sk.checkScript = true → found.sealed.getD [] = [])) ∨
      (sk.checkScript = true ∧ simpleCheck = false ∧ found.last.getD [] = []))

end Skill

/-! ## Reading does not change what is merged -/

/-- No formula of the owner is being evaluated, and its cache is right. -/
structure SkillOwner.Settled (fs : Formulas K V) (owner : SkillOwner K V M) (b : Base K V M) : Prop where
  base : owner.property.toBase = b
  path : owner.property.path = []
  coherent : owner.property.Coherent fs

variable {fs : Formulas K V} {names : SkillKeys K} {sk sk' : Skill K V M T} {owner owner' : SkillOwner K V M}

omit [LinearOrder V] in
theorem settled_merge (hpath : owner.property.path = []) :
    (sk.merge owner).Settled fs (owner.property.toBase.add sk.uuid sk.list) :=
  ⟨rfl, hpath, Property.coherent_nil _ _ _⟩

omit [DecidableEq M] [LinearOrder V] in
theorem SkillOwner.Settled.getter {b : Base K V M} (h : owner.Settled fs b) (key : K) :
    ∃ q, owner.property.getter fs key = .ok (b.read fs key, q) ∧ SkillOwner.Settled fs { owner with property := q } b := by
  obtain ⟨q, hget, hq⟩ := Property.getter_spec h.coherent h.path key
  rw [h.base] at hget
  exact ⟨q, hget, hq.base.trans h.base, hq.path.trans h.path, hq.coherent⟩

omit [DecidableEq M] [LinearOrder V] in
theorem SkillOwner.Settled.get {b : Base K V M} (h : owner.Settled fs b) (key : K) :
    ∃ owner', owner.get fs key = .ok ((owner.cfg key).getD (b.read fs key), owner') ∧ owner'.Settled fs b := by
  unfold SkillOwner.get
  cases hc : owner.cfg key with
  | some v => exact ⟨owner, rfl, h⟩
  | none =>
    obtain ⟨q, hget, hq⟩ := h.getter key
    exact ⟨_, by simp only [hget, Except.map, Option.getD_none], hq⟩

namespace Skill

section
variable (call : Bool) (found : Option (List T))

omit [DecidableEq K] [DecidableEq M] [AddCommGroup V] [LinearOrder V] in
@[simp] theorem callScript_uuid : (sk.callScript call found).uuid = sk.uuid := by
  unfold callScript
  split <;> rfl

omit [DecidableEq K] [DecidableEq M] [AddCommGroup V] [LinearOrder V] in
@[simp] theorem callScript_checkScript : (sk.callScript call found).checkScript = sk.checkScript := by
  unfold callScript
  split <;> rfl

omit [DecidableEq K] [DecidableEq M] [AddCommGroup V] [LinearOrder V] in
@[simp] theorem callScript_targetList :
    (sk.callScript call found).targetList = if call then found.getD [] else sk.targetList := by
  unfold callScript
  split <;> rfl

end

omit [DecidableEq M] in
theorem checkConsume_spec {b : Base K V M} {short : Option String} (h : owner.Settled fs b)
    (hcheck : sk.checkConsume fs names owner = .ok (short, sk', owner')) :
    (∃ p, sk' = { sk with property := p }) ∧ owner'.cfg = owner.cfg ∧ owner'.Settled fs b ∧
      (short = none ↔
        ¬ ∃ type ∈ sk.consumeType, ∃ r ∈ consumeTypeMap names type, b.read fs r.1 < sk.cost fs names type) := by
  unfold checkConsume at hcheck
  obtain htype | ⟨type, htype⟩ := Option.eq_none_or_eq_some sk.consumeType
  · simp only [htype, ok_pair_iff] at hcheck
    obtain ⟨rfl, rfl, rfl⟩ := hcheck
    exact ⟨⟨sk.property, rfl⟩, rfl, h, by simp [htype]⟩
  simp only [htype] at hcheck
  cases hmap : consumeTypeMap names type with
  | none =>
    simp only [hmap, ok_pair_iff] at hcheck
    obtain ⟨rfl, rfl, rfl⟩ := hcheck
    exact ⟨⟨sk.property, rfl⟩, rfl, h, by simp [htype, hmap]⟩
  | some r =>
    obtain ⟨key, name⟩ := r
    obtain ⟨q, hleft, hq⟩ := h.getter key
    simp only [hmap, hleft] at hcheck
    cases hcost : sk.property.getter fs (names.id type) with
    | error e =>
      rw [hcost] at hcheck
      exact nomatch hcheck
    | ok r =>
      have hc : sk.cost fs names type = r.1 := by rw [cost, hcost]
      rw [hcost] at hcheck
      obtain ⟨rfl, rfl, rfl⟩ := by simpa only [Prod.mk.injEq] using Except.ok.inj hcheck
      refine ⟨⟨r.2, by rw [htype]⟩, rfl, hq, ?_⟩
      by_cases hlt : b.read fs key < r.1
      · simp [htype, hmap, hc, hlt]
      · simp [htype, hmap, hc, hlt]

theorem checkTargets_spec {b : Base K V M} {simpleCheck r : Bool} {found : ScriptTargets T} (h : owner.Settled fs b)
    (hnone : sk.targetList = [])
    (hcheck : sk.checkTargets fs names owner simpleCheck found = .ok (r, sk', owner')) :
    owner'.property.toBase =
      if (0 < (owner.cfg (names.id 7002)).getD (b.read fs (names.id 7002)) ∧ sk.originId ≠ some 0) ∧
            (sk.checkScript = true → found.sealed.getD [] = []) ∨
          sk.checkScript = true ∧ simpleCheck = false ∧ found.last.getD [] = []
      then b else b.remove sk.uuid := by
  obtain ⟨owner₁, hget, h₁⟩ := h.get (names.id 7002)
  have hbase : (sk.unmerge owner₁).property.toBase = b.remove sk.uuid := by
    rw [← h₁.base]
    exact Property.remove_toBase _ _
  unfold checkTargets at hcheck
  rw [hget] at hcheck
  generalize (owner.cfg (names.id 7002)).getD (b.read fs (names.id 7002)) = value at hcheck ⊢
  simp only [bind, Except.bind] at hcheck
  split at hcheck
  case isTrue hsealed =>
    obtain ⟨-, rfl, rfl⟩ := by simpa only [Prod.mk.injEq] using Except.ok.inj hcheck
    rw [if_pos ?_, h₁.base]
    simp only [Bool.and_eq_true, decide_eq_true_eq, callScript_targetList] at hsealed
    refine .inl ⟨hsealed.1, fun hscript => ?_⟩
    simpa [hsealed.1, hscript] using hsealed.2
  case isFalse hsealed =>
    have hleft : ¬ ((0 < value ∧ sk.originId ≠ some 0) ∧ (sk.checkScript = true → found.sealed.getD [] = [])) := by
      intro hs
      apply hsealed
      simp only [Bool.and_eq_true, decide_eq_true_eq, callScript_targetList]
      refine ⟨hs.1, ?_⟩
      split
      case isTrue hcall => rw [hs.2 hcall.2, isEmpty_nil]
      case isFalse => rw [hnone, isEmpty_nil]
    split at hcheck
    case isTrue hlast =>
      obtain ⟨-, rfl, rfl⟩ := by simpa only [Prod.mk.injEq] using Except.ok.inj hcheck
      rw [if_pos ?_, h₁.base]
      simp only [Bool.and_eq_true, callScript_checkScript, Bool.not_eq_true'] at hlast
      refine .inr ⟨hlast.1.1, hlast.1.2, ?_⟩
      simpa [hlast.1] using hlast.2
    case isFalse hlast =>
      obtain ⟨-, rfl, rfl⟩ := by simpa only [Prod.mk.injEq] using Except.ok.inj hcheck
      rw [if_neg ?_, unmerge, Property.remove_toBase, h₁.base, callScript_uuid, callScript_uuid]
      rintro (hs | hs)
      · exact hleft hs
      · apply hlast
        simp [hs.1, hs.2.1, hs.2.2]

theorem check_spec {simpleCheck r : Bool} {found : ScriptTargets T} (hpath : owner.property.path = [])
    (hcheck : sk.check fs names owner simpleCheck found = .ok (r, sk', owner')) :
    (sk.Targetless fs names owner simpleCheck found →
      owner'.property.toBase = owner.property.toBase.add sk.uuid sk.list) ∧
    (¬ sk.Targetless fs names owner simpleCheck found →
      owner'.property.toBase = (owner.property.toBase.add sk.uuid sk.list).remove sk.uuid) := by
  have hmerged : (sk.merge owner).Settled fs (owner.property.toBase.add sk.uuid sk.list) := settled_merge hpath
  have hout (o : SkillOwner K V M) (ho : o.Settled fs (owner.property.toBase.add sk.uuid sk.list)) :
      (sk.unmerge o).property.toBase = (owner.property.toBase.add sk.uuid sk.list).remove sk.uuid := by
    rw [← ho.base]
    exact Property.remove_toBase _ _
  unfold check at hcheck
  simp only at hcheck
  split at hcheck
  case isTrue hcd =>
    obtain ⟨-, -, rfl⟩ := by simpa only [Prod.mk.injEq] using Except.ok.inj hcheck
    exact ⟨fun ht => absurd hcd ht.1, fun _ => hout _ hmerged⟩
  case isFalse hcd =>
    obtain ⟨⟨short, sk₁, owner₁⟩, hconsume, hrest⟩ := bind_ok_iff.mp hcheck
    obtain ⟨⟨p, rfl⟩, hcfg, h₁, hshort⟩ := checkConsume_spec hmerged hconsume
    have hlacks : short = none ↔ ¬ sk.Lacks fs names owner := hshort
    cases short with
    | some name =>
      obtain ⟨-, -, rfl⟩ := by simpa only [Prod.mk.injEq] using Except.ok.inj hrest
      exact ⟨fun ht => absurd (hlacks.mpr ht.2.1) (Option.some_ne_none name), fun _ => hout _ h₁⟩
    | none =>
      have htargets := checkTargets_spec h₁ rfl hrest
      rw [hcfg] at htargets
      constructor
      · intro ht
        rw [htargets]
        exact if_pos ht.2.2
      · intro ht
        rw [htargets]
        exact if_neg fun hs => ht ⟨hcd, hlacks.mp rfl, hs⟩

end Skill

/-! ## What is merged after a check -/

namespace Base
variable {b b' : Base K V M}

omit [DecidableEq K] [DecidableEq M] [LinearOrder V] in
theorem value_perm {fs : Formulas K V} (hproperty : b'.property = b.property) (hchange : b'.change = b.change)
    (hmerged : b'.merged.Perm b.merged) (n : ℕ) (k : K) : b'.value fs n k = b.value fs n k := by
  induction n generalizing k with
  | zero => rfl
  | succ n ih =>
    have hsub : b'.value fs n = b.value fs n := funext ih
    rw [value, value, hproperty, hchange, hsub, (hmerged.map fun m => (m.2 k).getD 0).sum_eq]

omit [DecidableEq K] [AddCommGroup V] [LinearOrder V] in
theorem mem_lookup {l : List (M × (K → Option V))} (hl : (l.map Prod.fst).Nodup) {j : M} {p : K → Option V} :
    (j, p) ∈ l ↔ l.lookup j = some p := by
  rw [lookup_eq_some_iff]
  constructor
  · intro hmem
    obtain ⟨l₁, l₂, rfl⟩ := append_of_mem hmem
    refine ⟨l₁, l₂, rfl, fun e he => bne_iff_ne.mpr ?_⟩
    rw [map_append, map_cons] at hl
    exact (nodup_append.mp hl).2.2 e.1 (mem_map_of_mem he) j mem_cons_self |>.symm
  · rintro ⟨l₁, l₂, rfl, -⟩
    simp

omit [DecidableEq K] [AddCommGroup V] [LinearOrder V] in
theorem perm_of_lookup {l l' : List (M × (K → Option V))} (hl : (l.map Prod.fst).Nodup) (hl' : (l'.map Prod.fst).Nodup)
    (h : ∀ j, l'.lookup j = l.lookup j) : l'.Perm l := by
  refine (perm_ext_iff_of_nodup hl'.of_map hl.of_map).mpr fun e => ?_
  rw [mem_lookup hl', mem_lookup hl, h]

omit [DecidableEq K] [AddCommGroup V] [LinearOrder V] in
theorem distinct_remove (hb : (b.merged.map Prod.fst).Nodup) (key : M) : ((b.remove key).merged.map Prod.fst).Nodup :=
  hb.sublist (filter_sublist.map Prod.fst)

omit [DecidableEq K] [AddCommGroup V] [LinearOrder V] in
theorem distinct_add (hb : (b.merged.map Prod.fst).Nodup) (key : M) (property : K → Option V) :
    ((b.add key property).merged.map Prod.fst).Nodup := by
  rw [add, map_append, nodup_append]
  refine ⟨distinct_remove hb key, nodup_singleton key, fun j hj j' hj' => ?_⟩
  obtain ⟨e, he, rfl⟩ := mem_map.mp hj
  rw [mem_singleton.mp hj']
  exact of_decide_eq_true (mem_filter.mp he).2

end Base

/-! ## The frame -/

def SkillOwner.Unchanged (fs : Formulas K V) (owner owner' : SkillOwner K V M) : Prop :=
  (∀ j, owner'.property.merged.lookup j = owner.property.merged.lookup j) ∧
    ∀ k, owner'.property.toBase.read fs k = owner.property.toBase.read fs k

omit [DecidableEq K] [LinearOrder V] in
theorem unchanged_iff {fs : Formulas K V} {owner owner' : SkillOwner K V M} {b : Base K V M}
    (hb : owner'.property.toBase = b) (hproperty : b.property = owner.property.property)
    (hchange : b.change = owner.property.change) (hdistinct : (owner.property.merged.map Prod.fst).Nodup)
    (hdistinct' : (b.merged.map Prod.fst).Nodup) :
    owner.Unchanged fs owner' ↔ ∀ j, b.merged.lookup j = owner.property.merged.lookup j := by
  subst hb
  refine ⟨And.left, fun h => ⟨h, fun k => ?_⟩⟩
  exact Base.value_perm hproperty hchange (Base.perm_of_lookup hdistinct hdistinct' h) _ k

/-- A check leaves the owner as it was if and only if the owner held the list of the skill before where the check finds
no target, and did not hold it where the check ends otherwise. -/
theorem check_frame_iff (fs : Formulas K V) (names : SkillKeys K) (sk sk' : Skill K V M T) (owner owner' : SkillOwner K V M)
    (simpleCheck r : Bool) (found : ScriptTargets T) (hpath : owner.property.path = [])
    (hdistinct : (owner.property.merged.map Prod.fst).Nodup)
    (hcheck : sk.check fs names owner simpleCheck found = .ok (r, sk', owner')) :
    owner.Unchanged fs owner' ↔
      (sk.Targetless fs names owner simpleCheck found → owner.property.merged.lookup sk.uuid = some sk.list) ∧
      (¬ sk.Targetless fs names owner simpleCheck found → owner.property.merged.lookup sk.uuid = none) := by
  obtain ⟨hstays, hleaves⟩ := Skill.check_spec hpath hcheck
  have hadd := Base.distinct_add hdistinct sk.uuid sk.list
  by_cases ht : sk.Targetless fs names owner simpleCheck found
  · rw [unchanged_iff (hstays ht) rfl rfl hdistinct hadd]
    simp only [Base.lookup_add, ht, forall_const, not_true_eq_false, false_implies, and_true]
    constructor
    · intro h
      rw [← h sk.uuid, if_pos rfl]
    · intro h j
      split
      case isTrue hj => rw [hj, h]
      case isFalse => rfl
  · rw [unchanged_iff (hleaves ht) rfl rfl hdistinct (Base.distinct_remove hadd _)]
    simp only [Base.lookup_remove, Base.lookup_add, ht, false_implies, true_and, not_false_eq_true, forall_const]
    constructor
    · intro h
      rw [← h sk.uuid, if_pos rfl]
    · intro h j
      split
      case isTrue hj => rw [hj, h]
      case isFalse => rfl

end Model

def plainFormula : Formulas (ℕ ⊕ String) ℤ := ⟨Sum.isLeft, fun _ => none, fun _ => 0, fun _ _ h => nomatch h⟩

def plainKeys : SkillKeys (ℕ ⊕ String) := ⟨.inl, .inr "mp", .inr "ep", .inr "fp"⟩

def strike : Skill (ℕ ⊕ String) ℤ ℕ ℕ :=
  { uuid := 7
    property := .new fun _ => none
    propertyList := some fun k => if k = .inl 1001 then some 50 else none
    consumeType := none
    currentCd := 0
    originId := some 11001
    checkScript := true
    targetList := []
    errorInfo := none }

def striker : SkillOwner (ℕ ⊕ String) ℤ ℕ :=
  { cfg := fun _ => none, property := .new fun k => if k = .inl 1001 then some 100 else none }

theorem check_frame_strike : ∃ sk' owner',
    strike.check plainFormula plainKeys striker false ⟨none, some [3]⟩ = .ok (true, sk', owner') ∧
      striker.Unchanged plainFormula owner' := by
  refine ⟨_, _, rfl, ?_⟩
  refine (check_frame_iff plainFormula plainKeys strike _ striker _ false true ⟨none, some [3]⟩ rfl nodup_nil rfl).mpr
    ⟨fun ht => ?_, fun _ => rfl⟩
  exfalso
  rcases ht.2.2 with hs | hs
  · exact absurd hs.1.1 (by decide)
  · exact absurd hs.2.2 (cons_ne_nil _ _)

/-- The script finds no target, and the attack of the owner stays 150. -/
theorem check_leaks : ∃ sk' owner',
    strike.check plainFormula plainKeys striker false ⟨none, some []⟩ = .ok (false, sk', owner') ∧
      ¬ striker.Unchanged plainFormula owner' := by
  refine ⟨_, _, rfl, fun h => absurd (h.2 (.inl 1001)) ?_⟩
  decide

end CServer.Fight
