import CServer.Logic.RewardGrant

/-! # `world/modules/reward.c`, `world/logic/aL.c`: the record of what has been granted

What is granted is written to an array that the caller provides, all zero before. A slot of type zero ends the entries.
`append_rewards_`, which a drop uses for what the heroes get, stores the type and the id of a new entry;
`append_reward_record`, used for all else, does not.

Whether what is recorded has been granted goes with each event and is not in the source.
-/
namespace CServer.Logic
open CServer.Lib CServer.Modules List

/-! ## The code -/

structure RewardItem where
  type : ℤ
  id : ℤ
  value : ℤ
  uuid : ℕ
  deriving DecidableEq

def writeFirst (p : RewardItem → Bool) (f : RewardItem → RewardItem) : List RewardItem → List RewardItem
  | [] => []
  | slot :: rest => if p slot then f slot :: rest else slot :: writeFirst p f rest

def appendRewardRecord (record : List RewardItem) (type id value : ℤ) (uuid : ℕ) : List RewardItem :=
  writeFirst (fun slot => (slot.type = type ∧ slot.id = id ∧ uuid = 0) ∨ slot.type = 0)
    (fun slot => { slot with value := toInt (slot.value + value), uuid := uuid }) record

def appendRewards (record : List RewardItem) (type id value : ℤ) : List RewardItem :=
  writeFirst (fun slot => (slot.type = type ∧ slot.id = id) ∨ slot.type = 0)
    (fun slot => ⟨type, id, toInt (slot.value + value), 0⟩) record

def writeEvent (record : List RewardItem) : GrantEvent → List RewardItem
  | .record type id value uuid _ => appendRewardRecord record type id value uuid
  | .rewards type id value _ => appendRewards record type id value

def recordOf (n : ℕ) (events : List GrantEvent) : List RewardItem :=
  events.foldl writeEvent (List.replicate n ⟨0, 0, 0, 0⟩)

inductive GrantCall
  | addOne (c : Content)
  | commit (contents : List Content)
  | sendDrop (heroes : Bool) (drops : List ℤ)

section Calls
variable {t : GrantTables} (env : GrantEnv t) (calls : ℕ)

def runCall (tr : GrantTrace) : GrantCall → Except Fault GrantTrace
  | .addOne c => addAnd (rewardAddOne env calls) tr c
  | .commit contents => commitContents env (rewardAddOne env calls) tr contents
  | .sendDrop heroes drops => sendDropReward env (rewardAddOne env calls) heroes tr [] drops

def runCalls (grants : List GrantCall) : Except Fault GrantTrace := grants.foldlM (runCall env calls) ⟨0, []⟩

end Calls

/-! ## What the record should say -/

namespace GrantEvent

def type : GrantEvent → ℤ
  | .record type _ _ _ _ => type
  | .rewards type _ _ _ => type

def id : GrantEvent → ℤ
  | .record _ id _ _ _ => id
  | .rewards _ id _ _ => id

def value : GrantEvent → ℤ
  | .record _ _ value _ _ => value
  | .rewards _ _ value _ => value

def uuid : GrantEvent → ℕ
  | .record _ _ _ uuid _ => uuid
  | .rewards _ _ _ _ => 0

def granted : GrantEvent → Bool
  | .record _ _ _ _ granted => granted
  | .rewards _ _ _ granted => granted

def Plain (e : GrantEvent) (type id : ℤ) : Prop := e.granted = true ∧ e.uuid = 0 ∧ e.type = type ∧ e.id = id

instance (e : GrantEvent) (type id : ℤ) : Decidable (e.Plain type id) :=
  inferInstanceAs (Decidable (e.granted = true ∧ e.uuid = 0 ∧ e.type = type ∧ e.id = id))

end GrantEvent

def grantedSum (type id : ℤ) (events : List GrantEvent) : ℤ :=
  (events.map fun e => if e.Plain type id then e.value else 0).sum

/-- One entry for each type and id that have been granted, with all of it, and one for each object. -/
structure RecordRight (record : List RewardItem) (events : List GrantEvent) : Prop where
  plain : ∀ type id, (∃ e ∈ events, e.Plain type id) → ∃ (k : ℕ) (slot : RewardItem), record[k]? = some slot ∧
    slot.type = type ∧ slot.id = id ∧ slot.value = grantedSum type id events ∧
    ∀ (k' : ℕ) (slot' : RewardItem), record[k']? = some slot' → slot'.type = type → slot'.id = id → k' = k
  object : ∀ e ∈ events, e.granted = true → e.uuid ≠ 0 →
    ∃ slot ∈ record, slot.type = e.type ∧ slot.id = e.id ∧ slot.uuid = e.uuid

/-- What has been granted of one type and id is an `int` altogether. -/
def SumsFit (events : List GrantEvent) : Prop := ∀ type id, IsInt (grantedSum type id events)

def Enough (n : ℕ) (events : List GrantEvent) : Prop :=
  (events.map fun e => (e.type, e.id, e.uuid)).toFinset.card ≤ n

/-- What is recorded has been granted, and, except for what is drawn for heroes, is no object and has an entry. -/
def StepRight (record : List RewardItem) : GrantEvent → Prop
  | .record type id _ uuid granted => granted = true ∧ uuid = 0 ∧
      ∃ slot ∈ record, slot.type ≠ 0 ∧ slot.type = type ∧ slot.id = id
  | .rewards _ _ _ granted => granted = true

/-! ## What is drawn for heroes -/

def HeroDraws (tr : GrantTrace) : Prop := ∀ e ∈ tr.events, ∀ type id value granted,
  e = .rewards type id value granted → type = 90

section Draws
variable {t : GrantTables} {env : GrantEnv t} {heroes : Bool} {tr : GrantTrace}

theorem HeroDraws.ask (h : HeroDraws tr) : HeroDraws tr.ask := h

theorem HeroDraws.record (h : HeroDraws tr) (type id value : ℤ) (uuid : ℕ) (granted : Bool) :
    HeroDraws (tr.add (.record type id value uuid granted)) := by
  intro e he type' id' value' granted' heq
  cases mem_append.mp he with
  | inl he => exact h e he type' id' value' granted' heq
  | inr he =>
    rw [mem_singleton.mp he] at heq
    cases heq

theorem HeroDraws.rewards (h : HeroDraws tr) {type : ℤ} (htype : type = 90) (id value : ℤ) (granted : Bool) :
    HeroDraws (tr.add (.rewards type id value granted)) := by
  intro e he type' id' value' granted' heq
  cases mem_append.mp he with
  | inl he => exact h e he type' id' value' granted' heq
  | inr he =>
    rw [mem_singleton.mp he] at heq
    cases heq
    exact htype

theorem HeroDraws.addEquipEach (c : Content) (n : ℕ) (h : HeroDraws tr) : HeroDraws (addEquipEach env c n tr) := by
  induction n generalizing tr with
  | zero => exact h
  | succ n ih =>
    unfold CServer.Logic.addEquipEach
    split
    · exact h.ask
    · exact ih (h.ask.record _ _ _ _ _)

theorem HeroDraws.rows (draws : List Draw) {acc : GrantTrace × List Content} (h : HeroDraws acc.1) :
    HeroDraws (draws.foldl (addDraw env heroes) acc).1 := by
  induction draws generalizing acc with
  | nil => exact h
  | cons d draws ih =>
    rw [foldl_cons]
    apply ih
    unfold addDraw
    split
    · split
      case isTrue htype => exact h.ask.rewards htype _ _ _
      case isFalse => exact h
    · exact h

theorem HeroDraws.withItem (draws : List Draw) {acc : GrantTrace × List Content} (h : HeroDraws acc.1) :
    HeroDraws (draws.foldl (addDrawWithItem env heroes) acc).1 := by
  induction draws generalizing acc with
  | nil => exact h
  | cons d draws ih =>
    rw [foldl_cons]
    apply ih
    unfold addDrawWithItem
    split
    case isTrue htype => exact h.ask.rewards htype.1 _ _ _
    case isFalse => exact h

/-! What a call keeps is kept by what calls it. -/

variable {f : GrantTrace → Content → Except Fault (ℤ × GrantTrace)}
  (hf : ∀ tr c r, HeroDraws tr → f tr c = .ok r → HeroDraws r.2)

include hf

theorem addAnd_draws {c : Content} {tr' : GrantTrace} (h : HeroDraws tr) (hr : addAnd f tr c = .ok tr') : HeroDraws tr' := by
  obtain ⟨r, hfr, hr⟩ := bind_ok_iff.mp hr
  cases hr
  exact hf tr c r h hfr

theorem openItemPackage_draws {id : ℤ} {depth : ℕ} {r : ℤ × ℕ × GrantTrace} (h : HeroDraws tr)
    (hr : openItemPackage (t := t) f tr id depth = .ok r) : HeroDraws r.2.2 := by
  unfold openItemPackage at hr
  split at hr
  · cases hr
    exact h
  · split at hr
    · cases hr
      exact h
    · obtain ⟨tr', hitems, hr⟩ := bind_ok_iff.mp hr
      cases hr
      exact foldlM_keeps (fun _ _ _ hs hstep => addAnd_draws hf hs hstep) h hitems

theorem openPackages_draws {id : ℤ} (n : ℕ) {r : ℤ × GrantTrace} (h : HeroDraws tr)
    (hr : openPackages (t := t) f id n tr = .ok r) : HeroDraws r.2 := by
  induction n generalizing tr with
  | zero =>
    cases hr
    exact h
  | succ n ih =>
    obtain ⟨r₁, hopen, hr⟩ := bind_ok_iff.mp hr
    have h₁ := openItemPackage_draws hf h hopen
    split at hr
    · cases hr
      exact h₁
    · exact ih h₁ hr

theorem commitContents_draws {contents : List Content} {tr' : GrantTrace} (h : HeroDraws tr)
    (hr : commitContents env f tr contents = .ok tr') : HeroDraws tr' := by
  unfold commitContents at hr
  split at hr
  · exact foldlM_keeps (fun _ _ _ hs hstep => addAnd_draws hf hs hstep) h.ask hr
  · cases hr
    exact h.ask

theorem sendDropReward_draws (drops : List ℤ) {contents : List Content} {tr' : GrantTrace} (h : HeroDraws tr)
    (hr : sendDropReward env f heroes tr contents drops = .ok tr') : HeroDraws tr' := by
  induction drops generalizing tr contents with
  | nil => exact commitContents_draws hf h hr
  | cons id drops ih =>
    unfold sendDropReward at hr
    split at hr
    · exact ih h hr
    · split at hr
      · exact ih (HeroDraws.rows _ h.ask) hr
      · exact foldlM_keeps (fun _ _ _ hs hstep => commitContents_draws hf (HeroDraws.withItem _ hs) hstep) h.ask hr

theorem sendDrops_draws {id : ℤ} (n : ℕ) {tr' : GrantTrace} (h : HeroDraws tr)
    (hr : sendDrops env f id n tr = .ok tr') : HeroDraws tr' := by
  induction n generalizing tr with
  | zero =>
    cases hr
    exact h
  | succ n ih =>
    obtain ⟨tr₁, hsend, hr⟩ := bind_ok_iff.mp hr
    exact ih (sendDropReward_draws hf [id] h hsend) hr

theorem addOneBody_draws (c : Content) {r : ℤ × GrantTrace} (h : HeroDraws tr) (hr : addOneBody env f tr c = .ok r) :
    HeroDraws r.2 := by
  unfold addOneBody at hr
  split at hr
  case isTrue =>
    cases hr
    exact h
  case isFalse =>
    cases htype : rewardType c.type with
    | item =>
      simp only [htype] at hr
      cases hr
      exact h.ask.record _ _ _ _ _
    | hero =>
      simp only [htype] at hr
      split at hr
      · cases hr
        exact h.ask
      · cases hr
        exact h.ask.record _ _ _ _ _
    | equip =>
      simp only [htype] at hr
      cases hr
      exact h.addEquipEach _ _
    | inscription =>
      simp only [htype] at hr
      cases hr
      exact h.addEquipEach _ _
    | itemPackage =>
      simp only [htype] at hr
      exact openPackages_draws hf c.value h hr
    | heroItem =>
      simp only [htype] at hr
      cases hr
      exact h.ask.record _ _ _ _ _
    | buff =>
      simp only [htype] at hr
      split at hr
      · cases hr
        exact h.ask.record _ _ _ _ _
      · cases hr
        exact h
    | drop =>
      simp only [htype] at hr
      split at hr
      · obtain ⟨tr', hdrops, hr⟩ := bind_ok_iff.mp hr
        cases hr
        exact sendDrops_draws hf c.value h hdrops
      · cases hr
        exact h
    | other =>
      simp only [htype] at hr
      cases hr
      exact h

end Draws

theorem rewardAddOne_draws {t : GrantTables} {env : GrantEnv t} (calls : ℕ) (tr : GrantTrace) (c : Content)
    (r : ℤ × GrantTrace) (h : HeroDraws tr) (hr : rewardAddOne env calls tr c = .ok r) : HeroDraws r.2 :=
  @unroll_keeps _ _ _ (addOneBody env) HeroDraws (fun r => HeroDraws r.2)
    (fun _ hf _ c _ hs hb => addOneBody_draws (fun tr c r => hf tr c r) c hs hb) calls tr c r h hr

theorem runCalls_draws {t : GrantTables} {env : GrantEnv t} {calls : ℕ} {grants : List GrantCall} {tr : GrantTrace}
    (hr : runCalls env calls grants = .ok tr) : HeroDraws tr := by
  have hempty : HeroDraws ⟨0, []⟩ := fun e he => absurd he not_mem_nil
  refine foldlM_keeps ?_ hempty hr
  intro tr call tr' h hcall
  cases call with
  | addOne c => exact addAnd_draws (rewardAddOne_draws calls) h hcall
  | commit contents => exact commitContents_draws (rewardAddOne_draws calls) h hcall
  | sendDrop heroes drops => exact sendDropReward_draws (rewardAddOne_draws calls) drops h hcall

/-! ## The entries of the record -/

def RewardItem.key (slot : RewardItem) : ℤ × ℤ := (slot.type, slot.id)

def GrantEvent.key (e : GrantEvent) : ℤ × ℤ := (e.type, e.id)

theorem writeFirst_split {p : RewardItem → Bool} {f : RewardItem → RewardItem} {a : List RewardItem} {slot : RewardItem}
    (ha : ∀ x ∈ a, p x = false) (hslot : p slot = true) (b : List RewardItem) :
    writeFirst p f (a ++ slot :: b) = a ++ f slot :: b := by
  induction a with
  | nil => simp [writeFirst, hslot]
  | cons x a ih =>
    have hx : p x = false := ha x mem_cons_self
    have ih := ih fun y hy => ha y (mem_cons_of_mem x hy)
    simp [writeFirst, hx, ih]

theorem recordOf_snoc (n : ℕ) (events : List GrantEvent) (e : GrantEvent) :
    recordOf n (events ++ [e]) = writeEvent (recordOf n events) e := by simp [recordOf]

section Slots
variable {a b : List RewardItem} {slot : RewardItem} {e : GrantEvent}

theorem writeEvent_entry (ha : ∀ x ∈ a, x.type ≠ 0 ∧ x.key ≠ e.key) (hkey : slot.key = e.key) (hslot : slot.uuid = 0)
    (he : e.uuid = 0) : writeEvent (a ++ slot :: b) e = a ++ { slot with value := toInt (slot.value + e.value) } :: b := by
  have htype : slot.type = e.type := congrArg Prod.fst hkey
  have hid : slot.id = e.id := congrArg Prod.snd hkey
  cases e with
  | record type id value uuid granted =>
    have huuid : uuid = 0 := he
    simp only [writeEvent, appendRewardRecord]
    rw [writeFirst_split]
    · simp only [huuid, ← hslot, GrantEvent.value]
    · intro x hx
      have hfar := ha x hx
      simp only [RewardItem.key, GrantEvent.key, GrantEvent.type, GrantEvent.id, ne_eq, Prod.mk.injEq] at hfar
      simp [hfar.1]
      tauto
    · simp only [GrantEvent.type, GrantEvent.id] at htype hid
      simp [htype, hid, huuid]
  | rewards type id value granted =>
    simp only [GrantEvent.type, GrantEvent.id] at htype hid
    simp only [writeEvent, appendRewards]
    rw [writeFirst_split]
    · simp only [← htype, ← hid, ← hslot, GrantEvent.value]
    · intro x hx
      have hfar := ha x hx
      simp only [RewardItem.key, GrantEvent.key, GrantEvent.type, GrantEvent.id, ne_eq, Prod.mk.injEq] at hfar
      simp [hfar.1]
      tauto
    · simp [htype, hid]

theorem writeEvent_free {type id value : ℤ} {granted : Bool}
    (ha : ∀ x ∈ a, x.type ≠ 0 ∧ x.key ≠ (type, id)) :
    writeEvent (a ++ ⟨0, 0, 0, 0⟩ :: b) (.rewards type id value granted) = a ++ ⟨type, id, toInt value, 0⟩ :: b := by
  simp only [writeEvent, appendRewards]
  rw [writeFirst_split]
  · simp
  · intro x hx
    have hfar := ha x hx
    simp only [RewardItem.key, ne_eq, Prod.mk.injEq] at hfar
    simp [hfar.1]
    tauto
  · simp

end Slots

/-! ## What the entries say -/

section Sums
variable {type id : ℤ} {events : List GrantEvent} {e : GrantEvent}

theorem toInt_add_left (a b : ℤ) : toInt (toInt a + b) = toInt (a + b) := by
  unfold toInt
  omega

theorem grantedSum_snoc (type id : ℤ) (events : List GrantEvent) (e : GrantEvent) :
    grantedSum type id (events ++ [e]) = grantedSum type id events + if e.Plain type id then e.value else 0 := by
  simp [grantedSum]

theorem grantedSum_other (h : (type, id) ≠ e.key) : grantedSum type id (events ++ [e]) = grantedSum type id events := by
  rw [grantedSum_snoc, if_neg, add_zero]
  intro hplain
  exact h (Prod.ext hplain.2.2.1.symm hplain.2.2.2.symm)

theorem grantedSum_own (hgranted : e.granted = true) (huuid : e.uuid = 0) (h : (type, id) = e.key) :
    grantedSum type id (events ++ [e]) = grantedSum type id events + e.value := by
  rw [grantedSum_snoc, if_pos]
  exact ⟨hgranted, huuid, (congrArg Prod.fst h).symm, (congrArg Prod.snd h).symm⟩

theorem grantedSum_none (h : (type, id) ∉ events.map GrantEvent.key) : grantedSum type id events = 0 := by
  induction events using List.reverseRecOn with
  | nil => rfl
  | append_singleton events e ih =>
    rw [map_append, mem_append, not_or] at h
    have hother : (type, id) ≠ e.key := by simpa using h.2
    rw [grantedSum_other hother, ih h.1]

end Sums

/-- The record after the events: the entries, and so many free slots. -/
structure Recorded (n : ℕ) (events : List GrantEvent) (entries : List RewardItem) (free : ℕ) : Prop where
  slots : recordOf n events = entries ++ List.replicate free ⟨0, 0, 0, 0⟩
  length : entries.length + free = n
  typed : ∀ slot ∈ entries, slot.type ≠ 0
  plain : ∀ slot ∈ entries, slot.uuid = 0
  distinct : (entries.map RewardItem.key).Nodup
  keys : ∀ key, key ∈ entries.map RewardItem.key ↔ key ∈ events.map GrantEvent.key
  sums : ∀ slot ∈ entries, slot.value = toInt (grantedSum slot.type slot.id events)
  objects : ∀ e ∈ events, e.uuid = 0

namespace Recorded
variable {n free : ℕ} {events : List GrantEvent} {entries : List RewardItem} {e : GrantEvent}

theorem empty (n : ℕ) : Recorded n [] [] n where
  slots := rfl
  length := Nat.zero_add n
  typed := fun _ h => absurd h not_mem_nil
  plain := fun _ h => absurd h not_mem_nil
  distinct := nodup_nil
  keys := fun _ => Iff.rfl
  sums := fun _ h => absurd h not_mem_nil
  objects := fun _ h => absurd h not_mem_nil

theorem objects_snoc (h : Recorded n events entries free) (he : e.uuid = 0) : ∀ x ∈ events ++ [e], x.uuid = 0 := by
  intro x hx
  cases mem_append.mp hx with
  | inl hx => exact h.objects x hx
  | inr hx =>
    rw [mem_singleton.mp hx]
    exact he

theorem step_entry (h : Recorded n events entries free) (hgranted : e.granted = true) (he : e.uuid = 0)
    (hentry : e.key ∈ entries.map RewardItem.key) : ∃ entries', Recorded n (events ++ [e]) entries' free := by
  obtain ⟨slot, hslot, hkey⟩ := mem_map.mp hentry
  obtain ⟨a, b, rfl⟩ := append_of_mem hslot
  have hnodup := h.distinct
  rw [map_append, map_cons, nodup_middle, nodup_cons, ← map_append] at hnodup
  have hother : ∀ x ∈ a ++ b, x.key ≠ e.key := by
    intro x hx heq
    exact hnodup.1 (mem_map.mpr ⟨x, hx, heq.trans hkey.symm⟩)
  have hmem : ∀ x ∈ a ++ { slot with value := toInt (slot.value + e.value) } :: b,
      x = { slot with value := toInt (slot.value + e.value) } ∨ x ∈ a ++ b := by
    intro x hx
    simp only [mem_append, mem_cons] at hx ⊢
    tauto
  have hsub : ∀ x ∈ a ++ b, x ∈ a ++ slot :: b := by
    intro x hx
    simp only [mem_append, mem_cons] at hx ⊢
    tauto
  have hkeys : (a ++ { slot with value := toInt (slot.value + e.value) } :: b).map RewardItem.key =
      (a ++ slot :: b).map RewardItem.key := by simp [RewardItem.key]
  refine ⟨a ++ { slot with value := toInt (slot.value + e.value) } :: b, ?_, ?_, ?_, ?_, ?_, ?_, ?_, h.objects_snoc he⟩
  · rw [recordOf_snoc, h.slots, append_assoc, append_assoc, cons_append, cons_append]
    apply writeEvent_entry _ hkey (h.plain slot hslot) he
    intro x hx
    have hx := mem_append_left b hx
    exact ⟨h.typed x (hsub x hx), hother x hx⟩
  · rw [← h.length]
    simp
  · intro x hx
    cases hmem x hx with
    | inl heq =>
      rw [heq]
      exact h.typed slot hslot
    | inr hx => exact h.typed x (hsub x hx)
  · intro x hx
    cases hmem x hx with
    | inl heq =>
      rw [heq]
      exact h.plain slot hslot
    | inr hx => exact h.plain x (hsub x hx)
  · rw [hkeys]
    exact h.distinct
  · intro key
    rw [hkeys, h.keys key, map_append, mem_append]
    constructor
    · exact Or.inl
    · intro hk
      cases hk with
      | inl hk => exact hk
      | inr hk =>
        rw [map_singleton, mem_singleton] at hk
        rw [hk, ← h.keys, ← hkey]
        exact mem_map_of_mem hslot
  · intro x hx
    cases hmem x hx with
    | inl heq =>
      rw [heq, grantedSum_own hgranted he hkey]
      simp only
      rw [h.sums slot hslot, toInt_add_left]
    | inr hx => rw [grantedSum_other (hother x hx), ← h.sums x (hsub x hx)]

theorem step_free {type id value : ℤ} (h : Recorded n events entries (free + 1)) (htype : type ≠ 0)
    (hkey : (type, id) ∉ entries.map RewardItem.key) :
    Recorded n (events ++ [.rewards type id value true]) (entries ++ [⟨type, id, toInt value, 0⟩]) free where
  slots := by
    rw [recordOf_snoc, h.slots, replicate_succ, append_assoc, singleton_append]
    apply writeEvent_free
    intro x hx
    exact ⟨h.typed x hx, fun heq => hkey (mem_map.mpr ⟨x, hx, heq⟩)⟩
  length := by
    rw [← h.length, length_append, length_singleton]
    omega
  typed := by
    intro x hx
    cases mem_append.mp hx with
    | inl hx => exact h.typed x hx
    | inr hx =>
      rw [mem_singleton.mp hx]
      exact htype
  plain := by
    intro x hx
    cases mem_append.mp hx with
    | inl hx => exact h.plain x hx
    | inr hx => rw [mem_singleton.mp hx]
  distinct := by
    rw [map_append, map_singleton, nodup_append]
    refine ⟨h.distinct, nodup_singleton _, ?_⟩
    intro x hx y hy heq
    rw [mem_singleton.mp hy] at heq
    rw [heq] at hx
    exact hkey hx
  keys := by
    intro key
    rw [map_append, mem_append, h.keys, map_append, mem_append]
    rfl
  sums := by
    intro x hx
    have hnone : (type, id) ∉ events.map GrantEvent.key := fun hmem => hkey ((h.keys _).mpr hmem)
    cases mem_append.mp hx with
    | inl hx =>
      have hother : x.key ≠ (type, id) := fun heq => hkey (mem_map.mpr ⟨x, hx, heq⟩)
      rw [grantedSum_other hother, ← h.sums x hx]
    | inr hx =>
      have hsum := @grantedSum_own type id events (.rewards type id value true) rfl rfl rfl
      rw [mem_singleton.mp hx, hsum, grantedSum_none hnone, zero_add]
      rfl
  objects := h.objects_snoc rfl

theorem room (h : Recorded n events entries free) (henough : Enough n (events ++ [e])) (he : e.uuid = 0)
    (hkey : e.key ∉ entries.map RewardItem.key) : free ≠ 0 := by
  have hnodup : (e.key :: entries.map RewardItem.key).Nodup := nodup_cons.mpr ⟨hkey, h.distinct⟩
  have hsub : ((e.key :: entries.map RewardItem.key).map fun k => (k.1, k.2, 0)).toFinset ⊆
      ((events ++ [e]).map fun e => (e.type, e.id, e.uuid)).toFinset := by
    intro x hx
    obtain ⟨k, hk, rfl⟩ := mem_map.mp (mem_toFinset.mp hx)
    rw [mem_toFinset, map_append, mem_append]
    cases mem_cons.mp hk with
    | inl heq =>
      right
      rw [heq, map_singleton, mem_singleton, he]
      rfl
    | inr hk =>
      left
      obtain ⟨x, hx, hxk⟩ := mem_map.mp ((h.keys k).mp hk)
      refine mem_map.mpr ⟨x, hx, ?_⟩
      rw [h.objects x hx, ← hxk]
      rfl
  have hcard := (Finset.card_le_card hsub).trans henough
  rw [toFinset_card_of_nodup (hnodup.map fun k k' heq => by
    simp only [Prod.mk.injEq, and_true] at heq
    exact Prod.ext heq.1 heq.2)] at hcard
  simp only [length_map, length_cons] at hcard
  have hlength := h.length
  omega

theorem step (h : Recorded n events entries free) (henough : Enough n (events ++ [e]))
    (hstep : StepRight (recordOf n events) e)
    (hdraw : ∀ type id value granted, e = .rewards type id value granted → type = 90) :
    ∃ entries' free', Recorded n (events ++ [e]) entries' free' := by
  cases e with
  | record type id value uuid granted =>
    obtain ⟨hgranted, huuid, slot, hslot, htype, heq⟩ := hstep
    have hmem : slot ∈ entries := by
      rw [h.slots] at hslot
      cases mem_append.mp hslot with
      | inl hslot => exact hslot
      | inr hslot => exact absurd (congrArg RewardItem.type (eq_of_mem_replicate hslot)) htype
    have hkey : (type, id) ∈ entries.map RewardItem.key := mem_map.mpr ⟨slot, hmem, Prod.ext heq.1 heq.2⟩
    obtain ⟨entries', h'⟩ := @step_entry _ _ _ _ (.record type id value uuid granted) h hgranted huuid hkey
    exact ⟨entries', free, h'⟩
  | rewards type id value granted =>
    have hgranted : granted = true := hstep
    subst hgranted
    by_cases hkey : (type, id) ∈ entries.map RewardItem.key
    · obtain ⟨entries', h'⟩ := @step_entry _ _ _ _ (.rewards type id value true) h rfl rfl hkey
      exact ⟨entries', free, h'⟩
    · obtain ⟨free', hfree⟩ := Nat.exists_eq_succ_of_ne_zero (h.room henough rfl hkey)
      subst hfree
      have htype : type ≠ 0 := by
        rw [hdraw type id value true rfl]
        decide
      exact ⟨_, free', h.step_free htype hkey⟩

theorem right (h : Recorded n events entries free) (hfit : SumsFit events) : RecordRight (recordOf n events) events where
  plain := by
    intro type id hgranted
    obtain ⟨e, he, hplain⟩ := hgranted
    have hkey : (type, id) ∈ entries.map RewardItem.key :=
      (h.keys _).mpr (mem_map.mpr ⟨e, he, Prod.ext hplain.2.2.1 hplain.2.2.2⟩)
    obtain ⟨slot, hslot, hslotkey⟩ := mem_map.mp hkey
    have htype : slot.type = type := congrArg Prod.fst hslotkey
    have hid : slot.id = id := congrArg Prod.snd hslotkey
    obtain ⟨k, hk⟩ := mem_iff_getElem?.mp hslot
    have hkn : k < entries.length := (List.getElem?_eq_some_iff.mp hk).1
    refine ⟨k, slot, ?_, htype, hid, ?_, ?_⟩
    · rw [h.slots, List.getElem?_append_left hkn, hk]
    · rw [h.sums slot hslot, htype, hid, toInt_of_int (hfit type id).1 (hfit type id).2]
    · intro k' slot' hk' htype' hid'
      rw [h.slots] at hk'
      by_cases hlt : k' < entries.length
      · rw [List.getElem?_append_left hlt] at hk'
        have hkeys : (entries.map RewardItem.key)[k']? = (entries.map RewardItem.key)[k]? := by
          rw [List.getElem?_map, List.getElem?_map, hk', hk, Option.map_some, Option.map_some, hslotkey]
          exact congrArg some (Prod.ext htype' hid')
        exact (List.getElem?_inj (by simpa using hlt) h.distinct).mp hkeys
      · have hfree := mem_of_getElem? (List.getElem?_append_right (Nat.le_of_not_lt hlt) ▸ hk')
        have hzero : slot'.type = 0 := congrArg RewardItem.type (eq_of_mem_replicate hfree)
        exact absurd (htype.trans (htype'.symm.trans hzero)) (h.typed slot hslot)
  object := by
    intro e he _ huuid
    exact absurd (h.objects e he) huuid

end Recorded

theorem Enough.front {n : ℕ} {events rest : List GrantEvent} (h : Enough n (events ++ rest)) : Enough n events := by
  refine (Finset.card_le_card ?_).trans h
  intro x hx
  rw [mem_toFinset] at hx ⊢
  rw [map_append]
  exact mem_append_left _ hx

theorem recorded_run {n : ℕ} {events : List GrantEvent} (henough : Enough n events)
    (hdraws : ∀ e ∈ events, ∀ type id value granted, e = .rewards type id value granted → type = 90)
    (hsteps : ∀ pre e post, events = pre ++ e :: post → StepRight (recordOf n pre) e) :
    ∃ entries free, Recorded n events entries free := by
  induction events using List.reverseRecOn with
  | nil => exact ⟨[], n, Recorded.empty n⟩
  | append_singleton events e ih =>
    have hprev : ∀ pre e' post, events = pre ++ e' :: post → StepRight (recordOf n pre) e' := by
      intro pre e' post heq
      apply hsteps pre e' (post ++ [e])
      rw [heq, append_assoc, cons_append]
    obtain ⟨entries, free, h⟩ := ih henough.front (fun x hx => hdraws x (mem_append_left _ hx)) hprev
    exact h.step henough (hsteps events e [] rfl) (hdraws e (mem_append_right _ (mem_singleton.mpr rfl)))

/-- The record says what has been granted after each event of a run in which what is recorded has been granted, and is drawn for
a hero or has an entry, as long as the sums are `int`s. -/
theorem record_right {t : GrantTables} (env : GrantEnv t) (calls : ℕ) (grants : List GrantCall) {n : ℕ} {tr : GrantTrace}
    (hrun : runCalls env calls grants = .ok tr) (henough : Enough n tr.events)
    (hfit : ∀ pre post, tr.events = pre ++ post → SumsFit pre)
    (hsteps : ∀ pre e post, tr.events = pre ++ e :: post → StepRight (recordOf n pre) e) :
    ∀ pre post, tr.events = pre ++ post → RecordRight (recordOf n pre) pre := by
  intro pre post heq
  have hdraws := runCalls_draws hrun
  have hsums := hfit pre post heq
  have hprev : ∀ pre' e post', pre = pre' ++ e :: post' → StepRight (recordOf n pre') e := by
    intro pre' e post' heq'
    apply hsteps pre' e (post' ++ post)
    rw [heq, heq', append_assoc, cons_append]
  rw [heq] at henough
  obtain ⟨entries, free, h⟩ := recorded_run henough.front
    (fun e he => hdraws e (by rw [heq]; exact mem_append_left _ he)) hprev
  exact h.right hsums

/-! ### A hero item that is drawn, and more of it -/

def heroTables : GrantTables where
  packages := fun _ => none
  mayDraw := fun _ o => o = .rows [⟨90, 1001, 3⟩]
  some_draw := fun _ => ⟨_, rfl⟩

def heroEnv : GrantEnv heroTables where
  grant := fun _ _ => some 0
  given := fun _ _ => true
  online := fun _ => true
  drop := fun _ _ => .rows [⟨90, 1001, 3⟩]
  drawn := fun _ _ => rfl

theorem record_right_hero :
    RecordRight [⟨90, 1001, 5, 0⟩, ⟨0, 0, 0, 0⟩] [.rewards 90 1001 3 true, .record 90 1001 2 0 true] := by
  have hrun : runCalls heroEnv 1 [.sendDrop true [5], .addOne ⟨90, 1001, 2, 0⟩] =
      .ok ⟨4, [.rewards 90 1001 3 true, .record 90 1001 2 0 true]⟩ := rfl
  have henough : (([.rewards 90 1001 3 true, .record 90 1001 2 0 true] : List GrantEvent).map
      fun e => (e.type, e.id, e.uuid)).toFinset.card ≤ 2 := by decide
  refine record_right heroEnv 1 [.sendDrop true [5], .addOne ⟨90, 1001, 2, 0⟩] hrun henough ?_ ?_ _ [] (append_nil _).symm
  · intro pre post heq type id
    have hpre := (mem_inits _ _).mpr ⟨post, heq.symm⟩
    simp only [List.inits, map_cons, map_nil, mem_cons, not_mem_nil, or_false] at hpre
    rcases hpre with rfl | rfl | rfl <;> simp only [grantedSum, map_cons, map_nil, sum_cons, sum_nil]
    · decide
    · split_ifs <;> decide
    · split_ifs <;> decide
  intro pre e post heq
  cases pre with
  | nil =>
    cases heq
    rfl
  | cons x pre =>
    cases pre with
    | nil =>
      cases heq
      exact ⟨rfl, rfl, ⟨90, 1001, 3, 0⟩, mem_cons_self, by decide, rfl, rfl⟩
    | cons y pre =>
      have hlength := congrArg List.length heq
      simp only [length_cons, length_append, length_nil] at hlength
      omega

/-- An item that is granted has no entry. -/
theorem record_item_lost : ∃ tr, runCalls heroEnv 1 [.addOne ⟨41, 100, 2, 0⟩] = .ok tr ∧ Enough 3 tr.events ∧
    ¬ RecordRight (recordOf 3 tr.events) tr.events := by
  refine ⟨⟨1, [.record 41 100 2 0 true]⟩, rfl, ?_, ?_⟩
  · unfold Enough
    decide
  · intro h
    have hplain : (GrantEvent.record 41 100 2 0 true).Plain 41 100 := by decide
    obtain ⟨k, slot, hslot, htype, _⟩ := h.plain 41 100 ⟨_, mem_singleton.mpr rfl, hplain⟩
    have htypes : ∀ slot ∈ recordOf 3 [.record 41 100 2 0 true], slot.type = 0 := by decide
    have hzero := htypes slot (mem_of_getElem? hslot)
    rw [htype] at hzero
    cases hzero

end CServer.Logic
