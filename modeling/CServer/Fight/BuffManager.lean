import CServer.Fight.BuffTarget
import CServer.Fight.Property

/-! # `fight/battlefield/BuffManager.lua`: buffs on the roles of a battle

A buff is on the target of its role and on the global one, and its property is merged into that of its role. `onStart` and
`onEnd` are called in the middle of an operation and may begin others or sleep: `pending` is what is left of the operations
whose callback has not come back, and any of them may go on next; where the script has no `onEnd`, it comes back at once.
The callbacks of a delivery are those listed when it starts, and an error or a sleep in one of them holds up no other, so
that what they do are further steps. What skills and pets merge into a property is under other keys.
-/
namespace CServer.Fight
open CServer.Lib Function Option

/-! ## The manager -/

structure BuffScript where
  onGlobal : GlobalCallback → Bool
  onTarget : TargetCallback → Bool

structure ManagedBuff (K V : Type) where
  target : ℕ
  property : K → Option V
  script : BuffScript

inductive BuffRest
  | move (buff target : ℕ)
  | clean (target : ℕ) (buffs : List ℕ)

/-- Roles are known by their uuid; `property` are theirs, and `buff` the buffs that were made. -/
structure BuffManager (K V : Type) where
  targets : ℕ → BuffTarget TargetCallback
  globalTarget : BuffTarget GlobalCallback
  buff : ℕ → Option (ManagedBuff K V)
  property : ℕ → Base K V ℕ
  nextUuid : ℕ
  pending : List BuffRest

inductive BuffAct (K V : Type)
  | add (target : ℕ) (script : BuffScript) (property : K → Option V)
  | move (buff target : ℕ)
  | remove (buff : ℕ) (localTarget : Option ℕ)
  | clean (target : ℕ) (visit : List ℕ)
  | deliver (event : BuffEvent) (role : ℕ)
  /-- A callback comes back. -/
  | resume (n : ℕ)

namespace BuffManager
variable {K V : Type}

def new (property : ℕ → Base K V ℕ) (nextUuid : ℕ) : BuffManager K V where
  targets _ := .new
  globalTarget := .new
  buff _ := none
  property := property
  nextUuid := nextUuid
  pending := []

section Operations
variable (s : BuffManager K V)

def handlesGlobal (uuid : ℕ) (callback : GlobalCallback) : Bool := (s.buff uuid).any fun b => b.script.onGlobal callback

def handlesTarget (uuid : ℕ) (callback : TargetCallback) : Bool := (s.buff uuid).any fun b => b.script.onTarget callback

/-- `BuffManager:onEvent`, with the buffs it calls. -/
def onEvent (event : BuffEvent) (role : ℕ) : BuffManager K V × List ℕ :=
  let r := match globalEvents event with
    | none => (s, [])
    | some callback =>
      let c := s.globalTarget.call s.handlesGlobal callback
      ({ s with globalTarget := c.1 }, c.2)
  match targetEvents event with
  | none => r
  | some callback =>
    let c := (r.1.targets role).call r.1.handlesTarget callback
    ({ r.1 with targets := update r.1.targets role c.1 }, r.2 ++ c.2)

def takeOff (uuid target role : ℕ) : BuffManager K V :=
  { s with
    targets := update s.targets target ((s.targets target).remove uuid)
    property := update s.property role ((s.property role).remove uuid) }

/-- `Buff:_init_`; its property has the next uuid. -/
def make (target : ℕ) (script : BuffScript) (property : K → Option V) : BuffManager K V :=
  { s with
    buff := update s.buff s.nextUuid (some ⟨target, property, script⟩)
    nextUuid := s.nextUuid + 1 }

def add (target : ℕ) (script : BuffScript) (property : K → Option V) : BuffManager K V :=
  if target = 0 then s
  else
    let uuid := s.nextUuid
    let made := s.make target script property
    match (made.targets target).add uuid script.onTarget with
    | none => made
    | some localTarget =>
      let made := { made with targets := update made.targets target localTarget }
      match made.globalTarget.add uuid script.onGlobal with
      | none => made
      | some globalTarget => { made with
          globalTarget := globalTarget
          property := update made.property target ((made.property target).add uuid property) }

def move (uuid target : ℕ) : BuffManager K V :=
  match s.buff uuid with
  | none => s
  | some buff =>
    if buff.target = target then s
    else { s.takeOff uuid buff.target buff.target with pending := .move uuid target :: s.pending }

def attach (uuid target : ℕ) : BuffManager K V :=
  match s.buff uuid with
  | none => s
  | some buff =>
    match (s.targets target).add uuid buff.script.onTarget with
    | none => s
    | some into => { s with
        targets := update s.targets target into
        buff := update s.buff uuid (some { buff with target := target })
        property := update s.property target ((s.property target).add uuid buff.property) }

def remove (uuid : ℕ) (localTarget : Option ℕ) : BuffManager K V :=
  match s.buff uuid with
  | none => s
  | some buff => { s.takeOff uuid (localTarget.getD buff.target) buff.target with
      globalTarget := s.globalTarget.remove uuid }

def cleanLoop (target : ℕ) : List ℕ → BuffManager K V
  | [] => s
  | uuid :: buffs => { s.remove uuid (some target) with pending := .clean target buffs :: s.pending }

def clean (target : ℕ) (visit : List ℕ) : BuffManager K V := s.cleanLoop target ((s.targets target).all visit)

def resume (n : ℕ) : BuffManager K V :=
  let rest : BuffManager K V := { s with pending := s.pending.eraseIdx n }
  match s.pending[n]? with
  | none => s
  | some (.move uuid target) => rest.attach uuid target
  | some (.clean target buffs) => rest.cleanLoop target buffs

end Operations

variable (s : BuffManager K V)

def step : BuffAct K V → Except Fault (BuffManager K V)
  | .add target script property => .ok (s.add target script property)
  | .move buff target => .ok (s.move buff target)
  | .remove buff localTarget => .ok (s.remove buff localTarget)
  | .clean target visit => .ok (s.clean target visit)
  | .deliver event role => .ok (s.onEvent event role).1
  | .resume n => .ok (s.resume n)

/-! ## What is asked of it -/

def Hears (event : BuffEvent) (role uuid : ℕ) : Prop :=
  (∃ callback, globalEvents event = some callback ∧ uuid ∈ s.globalTarget.buffs ∧
    s.handlesGlobal uuid callback = true) ∨
  ∃ callback, targetEvents event = some callback ∧ uuid ∈ (s.targets role).buffs ∧ s.handlesTarget uuid callback = true

def Merged : Prop := ∀ role uuid buff, s.buff uuid = some buff →
  (s.property role).merged.lookup uuid = if uuid ∈ (s.targets role).buffs then some buff.property else none

/-- A delivery now would call each buff that hears it once, and no other. -/
structure Exact (s : BuffManager K V) : Prop where
  once : ∀ event role, (s.onEvent event role).2.Nodup
  called : ∀ event role uuid, uuid ∈ (s.onEvent event role).2 ↔ s.Hears event role uuid
  merged : s.Merged

variable (uuid target : ℕ)

def OwnTarget : Prop := ∀ buff ∈ s.buff uuid,
  buff.target = target ∨ uuid ∉ (s.targets target).buffs ∧ uuid ∉ (s.targets buff.target).buffs

def Unlisted : Prop := uuid ∉ (s.targets target).buffs →
  ∀ callback, s.handlesTarget uuid callback = true → uuid ∉ (s.targets target).events callback

def UnspoiledRest : BuffRest → Prop
  | .move uuid target => s.Unlisted uuid target
  | .clean target buffs => ∀ uuid ∈ buffs.head?, s.OwnTarget uuid target

def Unspoiled : BuffAct K V → Prop
  | .remove uuid localTarget => ∀ target ∈ localTarget, s.OwnTarget uuid target
  | .clean target visit => ∀ uuid ∈ ((s.targets target).all visit).head?, s.OwnTarget uuid target
  | .resume n => ∀ rest ∈ s.pending[n]?, s.UnspoiledRest rest
  | _ => True

instance   : Decidable (s.OwnTarget uuid target) :=
  inferInstanceAs (Decidable (∀ buff ∈ s.buff uuid, _ ∨ _))

instance   : Decidable (s.Unlisted uuid target) :=
  inferInstanceAs (Decidable (_ → ∀ _ : TargetCallback, _ → _))

instance  : DecidablePred s.UnspoiledRest
  | .move uuid target => inferInstanceAs (Decidable (s.Unlisted uuid target))
  | .clean target buffs => inferInstanceAs (Decidable (∀ uuid ∈ buffs.head?, s.OwnTarget uuid target))

instance  : DecidablePred s.Unspoiled
  | .remove uuid localTarget => inferInstanceAs (Decidable (∀ target ∈ localTarget, s.OwnTarget uuid target))
  | .clean target visit =>
    inferInstanceAs (Decidable (∀ uuid ∈ ((s.targets target).all visit).head?, s.OwnTarget uuid target))
  | .resume n => inferInstanceAs (Decidable (∀ rest ∈ s.pending[n]?, s.UnspoiledRest rest))
  | .add _ _ _ => .isTrue trivial
  | .move _ _ => .isTrue trivial
  | .deliver _ _ => .isTrue trivial

/-! ## What always holds -/

section Steps
variable {s : BuffManager K V}

/-- The global target calls each of its buffs once, and no uuid that is still to be given is anywhere. -/
structure Sound (s : BuffManager K V) : Prop where
  global : s.globalTarget.Once s.handlesGlobal
  globalBelow : s.globalTarget.Below s.nextUuid
  below : ∀ role, (s.targets role).Below s.nextUuid
  buff : ∀ uuid, s.nextUuid ≤ uuid → s.buff uuid = none
  merged : ∀ role uuid, s.nextUuid ≤ uuid → (s.property role).merged.lookup uuid = none

structure Fits (s : BuffManager K V) : Prop where
  once : ∀ role, (s.targets role).Once s.handlesTarget
  merged : s.Merged

theorem Sound.made (h : s.Sound) {uuid : ℕ} {buff : ManagedBuff K V} (hbuff : s.buff uuid = some buff) :
    uuid < s.nextUuid := by
  by_contra hlt
  rw [h.buff uuid (not_lt.mp hlt)] at hbuff
  exact nomatch hbuff

theorem Sound.setPending (h : s.Sound) (rests : List BuffRest) : Sound { s with pending := rests } :=
  ⟨h.global, h.globalBelow, h.below, h.buff, h.merged⟩

theorem fits_setPending (rests : List BuffRest) : Fits { s with pending := rests } ↔ s.Fits :=
  ⟨fun h => ⟨h.once, h.merged⟩, fun h => ⟨h.once, h.merged⟩⟩

/-! ### Deliveries -/

theorem onEvent_calls (event : BuffEvent) (role : ℕ) : (s.onEvent event role).2 =
    ((globalEvents event).map fun callback => (s.globalTarget.call s.handlesGlobal callback).2).getD [] ++
    ((targetEvents event).map fun callback => ((s.targets role).call s.handlesTarget callback).2).getD [] := by
  unfold onEvent
  cases globalEvents event with
  | none =>
    cases targetEvents event with
    | none => rfl
    | some callback => rfl
  | some callback =>
    cases targetEvents event with
    | none => exact (List.append_nil _).symm
    | some callback' => rfl

theorem exact_of_fits (h : s.Sound) (hfits : s.Fits) : s.Exact where
  once event role := by
    rw [onEvent_calls]
    rcases globalEvents_targetEvents event with hnone | hnone
    · rw [hnone]
      cases targetEvents event with
      | none => exact .nil
      | some callback => exact (hfits.once role callback).1
    · rw [hnone, map_none, getD_none, List.append_nil]
      cases globalEvents event with
      | none => exact .nil
      | some callback => exact (h.global callback).1
  called event role uuid := by
    rw [onEvent_calls, List.mem_append, Hears]
    refine or_congr ?_ ?_
    · cases globalEvents event with
      | none => simp
      | some callback => simpa using (h.global callback).2 uuid
    · cases targetEvents event with
      | none => simp
      | some callback => simpa using (hfits.once role callback).2 uuid
  merged := hfits.merged

theorem Exact.fits (h : s.Exact) : s.Fits where
  once role callback := by
    obtain ⟨event, hevent⟩ := targetEvents_onto callback
    have hglobal : globalEvents event = none := by
      refine (globalEvents_targetEvents event).resolve_right fun hnone => ?_
      rw [hevent] at hnone
      exact nomatch hnone
    have hcalls : (s.onEvent event role).2 = ((s.targets role).call s.handlesTarget callback).2 := by
      rw [onEvent_calls, hglobal, hevent]
      rfl
    have hmem := h.called event role
    simp only [hcalls, Hears, hglobal, hevent, reduceCtorEq, false_and, exists_false, false_or, some.injEq,
      exists_eq_left'] at hmem
    exact ⟨hcalls ▸ h.once event role, hmem⟩
  merged := h.merged

theorem Sound.setTarget (h : s.Sound) (role : ℕ) {t : BuffTarget TargetCallback} (ht : t.Below s.nextUuid) :
    Sound { s with targets := update s.targets role t } :=
  ⟨h.global, h.globalBelow, (Function.forall_update_iff s.targets (p := fun _ t => t.Below s.nextUuid)).mpr
    ⟨ht, fun role' _ => h.below role'⟩, h.buff, h.merged⟩

theorem onEvent_cases (event : BuffEvent) (role : ℕ) : (s.onEvent event role).1 = s ∨
    (∃ callback, (s.onEvent event role).1 =
      { s with globalTarget := (s.globalTarget.call s.handlesGlobal callback).1 }) ∨
    ∃ callback, (s.onEvent event role).1 =
      { s with targets := update s.targets role ((s.targets role).call s.handlesTarget callback).1 } := by
  have hnone := globalEvents_targetEvents event
  unfold onEvent
  cases hglobal : globalEvents event with
  | none =>
    cases htarget : targetEvents event with
    | none => exact .inl rfl
    | some callback => exact .inr (.inr ⟨callback, rfl⟩)
  | some callback =>
    have htarget : targetEvents event = none := hnone.resolve_left (by simp [hglobal])
    rw [htarget]
    exact .inr (.inl ⟨callback, rfl⟩)

theorem Sound.onEvent (h : s.Sound) (event : BuffEvent) (role : ℕ) : (s.onEvent event role).1.Sound := by
  rcases onEvent_cases (s := s) event role with heq | ⟨callback, heq⟩ | ⟨callback, heq⟩
  · rwa [heq]
  · rw [heq]
    exact ⟨h.global.call callback, h.globalBelow.call s.handlesGlobal callback, h.below, h.buff, h.merged⟩
  · rw [heq]
    exact h.setTarget role ((h.below role).call _ callback)

theorem Fits.onEvent (h : s.Fits) (event : BuffEvent) (role : ℕ) : (s.onEvent event role).1.Fits := by
  rcases onEvent_cases (s := s) event role with heq | ⟨callback, heq⟩ | ⟨callback, heq⟩
  · rwa [heq]
  · rw [heq]
    exact ⟨h.once, h.merged⟩
  · rw [heq]
    refine ⟨(Function.forall_update_iff s.targets (p := fun _ t => t.Once s.handlesTarget)).mpr
      ⟨(h.once role).call callback, fun role' _ => h.once role'⟩, fun role' uuid buff hbuff => ?_⟩
    have hbuffs : (update s.targets role ((s.targets role).call s.handlesTarget callback).1 role').buffs =
        (s.targets role').buffs := by
      by_cases hrole : role' = role
      · subst hrole
        rw [update_self]
        rfl
      · rw [update_of_ne hrole]
    refine (h.merged role' uuid buff hbuff).trans ?_
    simp only [hbuffs]

/-! ### Taking buffs off -/

section TakeOff
variable {uuid target role : ℕ}

theorem mem_takeOff {t uuid' : ℕ} : uuid' ∈ ((s.takeOff uuid target role).targets t).buffs ↔
    uuid' ∈ (s.targets t).buffs ∧ ¬(t = target ∧ uuid' = uuid) := by
  by_cases ht : t = target
  · subst ht
    simp only [takeOff, update_self, BuffTarget.mem_remove, true_and]
  · simp only [takeOff, update_of_ne ht, ht, false_and, not_false_eq_true, and_true]

theorem lookup_takeOff {t uuid' : ℕ} : ((s.takeOff uuid target role).property t).merged.lookup uuid' =
    if t = role ∧ uuid' = uuid then none else (s.property t).merged.lookup uuid' := by
  by_cases ht : t = role
  · subst ht
    simp only [takeOff, update_self, Base.lookup_remove, true_and]
  · simp only [takeOff, update_of_ne ht, ht, false_and, if_false]

theorem Sound.takeOff (h : s.Sound) : (s.takeOff uuid target role).Sound where
  global := h.global
  globalBelow := h.globalBelow
  below := (h.setTarget target (h.below target).remove).below
  buff := h.buff
  merged t uuid' hle := by
    rw [lookup_takeOff]
    split
    · rfl
    · exact h.merged t uuid' hle

theorem once_takeOff (h : s.Fits) (t : ℕ) : ((s.takeOff uuid target role).targets t).Once s.handlesTarget :=
  (Function.forall_update_iff s.targets (p := fun _ t => t.Once s.handlesTarget)).mpr
    ⟨(h.once target).remove, fun t _ => h.once t⟩ t

theorem merged_takeOff (h : s.Merged) {buff : ManagedBuff K V} (hbuff : s.buff uuid = some buff) :
    (s.takeOff uuid target buff.target).Merged ↔ s.OwnTarget uuid target := by
  constructor
  · intro h' x hx
    obtain rfl : buff = x := some_unique hbuff hx
    by_cases hown : buff.target = target
    · exact .inl hown
    · have hother := h' target uuid buff hbuff
      have hself := h' buff.target uuid buff hbuff
      rw [lookup_takeOff, if_neg fun heq => hown heq.1.symm, h target uuid buff hbuff] at hother
      rw [lookup_takeOff, if_pos ⟨rfl, rfl⟩] at hself
      simp only [mem_takeOff, and_self, not_true_eq_false, and_false, if_false] at hother
      simp only [mem_takeOff, hown, not_false_eq_true, and_true] at hself
      refine .inr ⟨fun hmem => ?_, fun hmem => ?_⟩
      · rw [if_pos hmem] at hother
        exact nomatch hother
      · rw [if_pos hmem] at hself
        exact nomatch hself
  · intro hown t uuid' x hx
    rw [lookup_takeOff]
    by_cases huuid : uuid' = uuid
    · subst huuid
      obtain rfl : buff = x := some_unique hbuff hx
      rw [h t uuid' buff hbuff]
      simp only [mem_takeOff, and_true]
      rcases hown buff hbuff with rfl | ⟨htarget, hrole⟩
      · by_cases ht : t = buff.target
        · simp [ht]
        · simp [ht]
      · by_cases ht : t = target
        · subst ht
          simp [htarget]
        · by_cases hr : t = buff.target
          · simp [hr, hrole]
          · simp [ht, hr]
    · simp only [mem_takeOff, huuid, and_false, if_false, not_false_eq_true, and_true]
      exact h t uuid' x hx

theorem fits_takeOff (h : s.Fits) {buff : ManagedBuff K V} (hbuff : s.buff uuid = some buff) (target : ℕ) :
    (s.takeOff uuid target buff.target).Fits ↔ s.OwnTarget uuid target :=
  ⟨fun h' => (merged_takeOff h.merged hbuff).mp h'.merged,
    fun hown => ⟨once_takeOff h, (merged_takeOff h.merged hbuff).mpr hown⟩⟩

end TakeOff

theorem Sound.move (h : s.Sound) (uuid target : ℕ) : (s.move uuid target).Sound := by
  unfold BuffManager.move
  split
  · exact h
  · split
    · exact h
    · exact h.takeOff.setPending _

theorem Fits.move (h : s.Fits) (uuid target : ℕ) : (s.move uuid target).Fits := by
  unfold BuffManager.move
  split
  · exact h
  · rename_i buff hbuff
    split
    · exact h
    · refine (fits_setPending _).mpr ((fits_takeOff h hbuff buff.target).mpr fun x hx => ?_)
      exact .inl (congrArg ManagedBuff.target (some_unique hx hbuff))

theorem Sound.remove (h : s.Sound) (uuid : ℕ) (localTarget : Option ℕ) : (s.remove uuid localTarget).Sound := by
  unfold BuffManager.remove
  split
  · exact h
  · rename_i buff hbuff
    have htake : (s.takeOff uuid (localTarget.getD buff.target) buff.target).Sound := h.takeOff
    exact ⟨h.global.remove, h.globalBelow.remove, htake.below, h.buff, htake.merged⟩

theorem fits_remove (h : s.Fits) (uuid : ℕ) (localTarget : Option ℕ) :
    (s.remove uuid localTarget).Fits ↔ ∀ target ∈ localTarget, s.OwnTarget uuid target := by
  unfold BuffManager.remove
  split
  · rename_i hnone
    exact iff_of_true h fun target _ buff hbuff => nomatch hnone.symm.trans hbuff
  · rename_i buff hbuff
    have htake := fits_takeOff h hbuff (localTarget.getD buff.target)
    refine ⟨fun h' => ?_, fun hown => ?_⟩
    · have hown := htake.mp ⟨h'.once, h'.merged⟩
      intro target htarget
      rwa [htarget, getD_some] at hown
    · have hfits : (s.takeOff uuid (localTarget.getD buff.target) buff.target).Fits := by
        refine htake.mpr ?_
        cases localTarget with
        | none => exact fun x hx => .inl (congrArg ManagedBuff.target (some_unique hx hbuff))
        | some target => exact hown target rfl
      exact ⟨hfits.once, hfits.merged⟩

theorem Sound.cleanLoop (h : s.Sound) (target : ℕ) (buffs : List ℕ) : (s.cleanLoop target buffs).Sound := by
  cases buffs with
  | nil => exact h
  | cons uuid buffs => exact (h.remove uuid (some target)).setPending _

theorem fits_cleanLoop (h : s.Fits) (target : ℕ) (buffs : List ℕ) :
    (s.cleanLoop target buffs).Fits ↔ ∀ uuid ∈ buffs.head?, s.OwnTarget uuid target := by
  cases buffs with
  | nil => exact iff_of_true h fun uuid hmem => nomatch hmem
  | cons uuid buffs =>
    refine (fits_setPending _).trans ((fits_remove h uuid (some target)).trans ?_)
    simp only [mem_some, List.head?_cons, forall_eq']

/-! ### Putting buffs on -/

section Attach
variable {uuid target : ℕ} {buff : ManagedBuff K V}

theorem handlesTarget_eq (hbuff : s.buff uuid = some buff) (callback : TargetCallback) :
    s.handlesTarget uuid callback = buff.script.onTarget callback := by
  rw [handlesTarget, hbuff, any_some]

theorem attach_eq (hbuff : s.buff uuid = some buff) {into : BuffTarget TargetCallback}
    (hadd : (s.targets target).add uuid buff.script.onTarget = some into) :
    s.attach uuid target = { s with
      targets := update s.targets target into
      buff := update s.buff uuid (some { buff with target := target })
      property := update s.property target ((s.property target).add uuid buff.property) } := by
  unfold attach
  rw [hbuff]
  simp only
  rw [hadd]

theorem attach_cases (s : BuffManager K V) (uuid target : ℕ) : (s.attach uuid target = s ∧ s.Unlisted uuid target) ∨
    ∃ buff into, s.buff uuid = some buff ∧ (s.targets target).add uuid buff.script.onTarget = some into := by
  cases hbuff : s.buff uuid with
  | none =>
    refine .inl ⟨by rw [attach, hbuff], fun _ callback hcallback => ?_⟩
    rw [handlesTarget, hbuff] at hcallback
    exact nomatch hcallback
  | some buff =>
    cases hadd : (s.targets target).add uuid buff.script.onTarget with
    | none =>
      refine .inl ⟨?_, fun habsent => absurd (BuffTarget.add_present hadd) habsent⟩
      unfold attach
      rw [hbuff]
      simp only
      rw [hadd]
    | some into => exact .inr ⟨buff, into, rfl, hadd⟩

theorem any_retarget (hbuff : s.buff uuid = some buff) (f : BuffScript → Bool) (uuid' : ℕ) :
    (update s.buff uuid (some { buff with target := target }) uuid').any (fun b => f b.script) =
      (s.buff uuid').any fun b => f b.script := by
  by_cases huuid : uuid' = uuid
  · subst huuid
    rw [update_self, hbuff]
    rfl
  · rw [update_of_ne huuid]

theorem attach_handlesGlobal : (s.attach uuid target).handlesGlobal = s.handlesGlobal := by
  obtain ⟨hsame, -⟩ | ⟨buff, into, hbuff, hadd⟩ := s.attach_cases uuid target
  · rw [hsame]
  · rw [attach_eq hbuff hadd]
    funext uuid' callback
    exact any_retarget hbuff (fun script => script.onGlobal callback) uuid'

theorem attach_handlesTarget : (s.attach uuid target).handlesTarget = s.handlesTarget := by
  obtain ⟨hsame, -⟩ | ⟨buff, into, hbuff, hadd⟩ := s.attach_cases uuid target
  · rw [hsame]
  · rw [attach_eq hbuff hadd]
    funext uuid' callback
    exact any_retarget hbuff (fun script => script.onTarget callback) uuid'

theorem attach_nextUuid : (s.attach uuid target).nextUuid = s.nextUuid := by
  obtain ⟨hsame, -⟩ | ⟨buff, into, hbuff, hadd⟩ := s.attach_cases uuid target
  · rw [hsame]
  · rw [attach_eq hbuff hadd]

theorem Sound.attach (h : s.Sound) (uuid target : ℕ) : (s.attach uuid target).Sound := by
  have hglobal : s.globalTarget.Once (s.attach uuid target).handlesGlobal := by
    rw [attach_handlesGlobal]
    exact h.global
  obtain ⟨hsame, -⟩ | ⟨buff, into, hbuff, hadd⟩ := s.attach_cases uuid target
  · rwa [hsame]
  · have hlt := h.made hbuff
    rw [attach_eq hbuff hadd] at hglobal ⊢
    refine ⟨hglobal, h.globalBelow, (h.setTarget target ((h.below target).add hadd hlt)).below, ?_, ?_⟩
    · intro uuid' hle
      have hne : uuid' ≠ uuid := (hlt.trans_le hle).ne'
      exact (update_of_ne hne _ _).trans (h.buff uuid' hle)
    · intro role uuid' hle
      have hne : uuid' ≠ uuid := (hlt.trans_le hle).ne'
      by_cases hrole : role = target
      · subst hrole
        simpa only [update_self, Base.lookup_add, if_neg hne] using h.merged role uuid' hle
      · simpa only [update_of_ne hrole] using h.merged role uuid' hle

theorem Merged.attach (h : s.Merged) (uuid target : ℕ) : (s.attach uuid target).Merged := by
  obtain ⟨hsame, -⟩ | ⟨buff, into, hbuff, hadd⟩ := s.attach_cases uuid target
  · rwa [hsame]
  · rw [attach_eq hbuff hadd]
    intro role uuid' x hx
    -- the buff as it was, with the same property
    obtain ⟨old, hold, hproperty⟩ : ∃ old, s.buff uuid' = some old ∧ x.property = old.property := by
      by_cases huuid : uuid' = uuid
      · subst huuid
        simp only [update_self, some.injEq] at hx
        exact ⟨buff, hbuff, hx ▸ rfl⟩
      · simp only [update_of_ne huuid] at hx
        exact ⟨x, hx, rfl⟩
    have hbefore := h role uuid' old hold
    rw [hproperty]
    by_cases hrole : role = target
    · subst hrole
      simp only [update_self, Base.lookup_add, BuffTarget.mem_add hadd]
      by_cases huuid : uuid' = uuid
      · subst huuid
        obtain rfl : buff = old := some_unique hbuff hold
        simp only [if_true, or_true]
      · simpa only [huuid, if_false, or_false] using hbefore
    · simpa only [update_of_ne hrole] using hbefore

theorem fits_attach (h : s.Fits) (uuid target : ℕ) : (s.attach uuid target).Fits ↔ s.Unlisted uuid target := by
  obtain ⟨hsame, hunlisted⟩ | ⟨buff, into, hbuff, hadd⟩ := s.attach_cases uuid target
  · rw [hsame]
    exact iff_of_true h hunlisted
  · have hown := handlesTarget_eq hbuff
    have hinto := BuffTarget.once_add hadd hown
    constructor
    · intro h' _ callback hcallback
      have honce := h'.once target
      rw [attach_handlesTarget, attach_eq hbuff hadd] at honce
      simp only [update_self] at honce
      exact (hinto.mp honce).2 callback ((hown callback).symm.trans hcallback)
    · intro hunlisted
      have honce : into.Once s.handlesTarget := by
        refine hinto.mpr ⟨h.once target, fun callback hcallback => ?_⟩
        exact hunlisted (BuffTarget.add_absent hadd) callback ((hown callback).trans hcallback)
      refine ⟨?_, h.merged.attach uuid target⟩
      rw [attach_handlesTarget, attach_eq hbuff hadd]
      exact (Function.forall_update_iff s.targets (p := fun _ t => t.Once s.handlesTarget)).mpr
        ⟨honce, fun role _ => h.once role⟩

end Attach

/-! ### New buffs -/

section Make
variable (target : ℕ) (script : BuffScript) (property : K → Option V)

theorem make_buff {uuid : ℕ} (hne : uuid ≠ s.nextUuid) : (s.make target script property).buff uuid = s.buff uuid :=
  update_of_ne hne _ _

theorem make_buff_self : (s.make target script property).buff s.nextUuid = some ⟨target, property, script⟩ :=
  update_self _ _ _

theorem Sound.make (h : s.Sound) : (s.make target script property).Sound where
  global := by
    refine h.global.congr fun uuid hmem => ?_
    funext callback
    rw [handlesGlobal, make_buff target script property (h.globalBelow.buffs uuid hmem).ne, handlesGlobal]
  globalBelow := h.globalBelow.mono (Nat.le_succ _)
  below role := (h.below role).mono (Nat.le_succ _)
  buff uuid hle := (make_buff target script property (Nat.lt_of_succ_le hle).ne').trans (h.buff uuid (Nat.le_of_succ_le hle))
  merged role uuid hle := h.merged role uuid (Nat.le_of_succ_le hle)

theorem Fits.make (h : s.Fits) (hs : s.Sound) : (s.make target script property).Fits where
  once role := by
    refine (h.once role).congr fun uuid hmem => ?_
    funext callback
    rw [handlesTarget, make_buff target script property ((hs.below role).buffs uuid hmem).ne, handlesTarget]
  merged role uuid buff hbuff := by
    by_cases huuid : uuid = s.nextUuid
    · subst huuid
      have habsent : s.nextUuid ∉ (s.targets role).buffs := fun hmem => lt_irrefl _ ((hs.below role).buffs _ hmem)
      exact (hs.merged role _ le_rfl).trans (if_neg habsent).symm
    · rw [make_buff target script property huuid] at hbuff
      exact h.merged role uuid buff hbuff

theorem add_eq (h : s.Sound) {target : ℕ} (htarget : target ≠ 0) :
    ∃ g, s.globalTarget.add s.nextUuid script.onGlobal = some g ∧ s.add target script property =
      { (s.make target script property).attach s.nextUuid target with globalTarget := g } := by
  have hglobal : s.nextUuid ∉ s.globalTarget.buffs := fun hmem => lt_irrefl _ (h.globalBelow.buffs _ hmem)
  have hlocal : s.nextUuid ∉ (s.targets target).buffs := fun hmem => lt_irrefl _ ((h.below target).buffs _ hmem)
  cases hg : s.globalTarget.add s.nextUuid script.onGlobal with
  | none => exact absurd (BuffTarget.add_present hg) hglobal
  | some g =>
    cases hl : (s.targets target).add s.nextUuid script.onTarget with
    | none => exact absurd (BuffTarget.add_present hl) hlocal
    | some into =>
      have hattach := attach_eq (make_buff_self target script property) hl
      refine ⟨g, rfl, ?_⟩
      rw [hattach, add, if_neg htarget]
      simp only [make] at hl hg ⊢
      rw [hl]
      simp only [hg, update_idem]

end Make

theorem Sound.add (h : s.Sound) (target : ℕ) (script : BuffScript) (property : K → Option V) :
    (s.add target script property).Sound := by
  by_cases htarget : target = 0
  · unfold BuffManager.add
    rwa [if_pos htarget]
  · obtain ⟨g, hg, heq⟩ := add_eq script property h htarget
    have hmade := h.make target script property
    have hattach := hmade.attach s.nextUuid target
    have hown : ∀ callback, (s.make target script property).handlesGlobal s.nextUuid callback = script.onGlobal callback := by
      intro callback
      rw [handlesGlobal, make_buff_self, any_some]
    have honce : g.Once ((s.make target script property).attach s.nextUuid target).handlesGlobal := by
      rw [attach_handlesGlobal]
      exact (BuffTarget.once_add hg hown).mpr
        ⟨hmade.global, fun callback _ hmem => lt_irrefl _ (h.globalBelow.events callback _ hmem)⟩
    have hbelow : g.Below ((s.make target script property).attach s.nextUuid target).nextUuid := by
      rw [attach_nextUuid]
      exact hmade.globalBelow.add hg (Nat.lt_succ_self _)
    rw [heq]
    exact ⟨honce, hbelow, hattach.below, hattach.buff, hattach.merged⟩

theorem Fits.add (h : s.Fits) (hs : s.Sound) (target : ℕ) (script : BuffScript) (property : K → Option V) :
    (s.add target script property).Fits := by
  by_cases htarget : target = 0
  · unfold BuffManager.add
    rwa [if_pos htarget]
  · obtain ⟨g, -, heq⟩ := add_eq script property hs htarget
    have hattach : ((s.make target script property).attach s.nextUuid target).Fits := by
      refine (fits_attach (h.make target script property hs) _ _).mpr fun _ callback _ hmem => ?_
      exact lt_irrefl _ ((hs.below target).events callback _ hmem)
    rw [heq]
    exact ⟨hattach.once, hattach.merged⟩

/-! ### Steps -/

theorem Sound.resume (h : s.Sound) (n : ℕ) : (s.resume n).Sound := by
  have hrest := h.setPending (s.pending.eraseIdx n)
  unfold BuffManager.resume
  split
  · exact h
  · exact hrest.attach _ _
  · exact hrest.cleanLoop _ _

theorem fits_resume (h : s.Fits) (n : ℕ) : (s.resume n).Fits ↔ ∀ rest ∈ s.pending[n]?, s.UnspoiledRest rest := by
  have hrest := (fits_setPending (s.pending.eraseIdx n)).mpr h
  unfold BuffManager.resume
  cases s.pending[n]? with
  | none => exact iff_of_true h fun _ hmem => nomatch hmem
  | some rest =>
    refine Iff.trans ?_ (by simp only [mem_some, forall_eq'] : _ ↔ s.UnspoiledRest rest).symm
    cases rest with
    | move uuid target => exact fits_attach hrest uuid target
    | clean target buffs => exact fits_cleanLoop hrest target buffs

theorem Sound.step {s' : BuffManager K V} {a : BuffAct K V} (h : s.Sound) (hstep : s.step a = .ok s') : s'.Sound := by
  cases a with
  | add target script property => exact Except.ok.inj hstep ▸ h.add target script property
  | move buff target => exact Except.ok.inj hstep ▸ h.move buff target
  | remove buff localTarget => exact Except.ok.inj hstep ▸ h.remove buff localTarget
  | clean target visit => exact Except.ok.inj hstep ▸ h.cleanLoop target _
  | deliver event role => exact Except.ok.inj hstep ▸ h.onEvent event role
  | resume n => exact Except.ok.inj hstep ▸ h.resume n

theorem fits_step {s' : BuffManager K V} {a : BuffAct K V} (hs : s.Sound) (h : s.Fits) (hstep : s.step a = .ok s') :
    s'.Fits ↔ s.Unspoiled a := by
  cases a with
  | add target script property =>
    exact Except.ok.inj hstep ▸ iff_of_true (h.add hs target script property) trivial
  | move buff target => exact Except.ok.inj hstep ▸ iff_of_true (h.move buff target) trivial
  | remove buff localTarget => exact Except.ok.inj hstep ▸ fits_remove h buff localTarget
  | clean target visit => exact Except.ok.inj hstep ▸ fits_cleanLoop h target _
  | deliver event role => exact Except.ok.inj hstep ▸ iff_of_true (h.onEvent event role) trivial
  | resume n => exact Except.ok.inj hstep ▸ fits_resume h n

theorem step_total (s : BuffManager K V) (a : BuffAct K V) : ∃ s', s.step a = .ok s' := by
  cases a
  all_goals exact ⟨_, rfl⟩

end Steps

theorem sound_new {property : ℕ → Base K V ℕ} {nextUuid : ℕ}
    (hmerged : ∀ role, ∀ m ∈ (property role).merged, m.1 < nextUuid) : (new property nextUuid).Sound where
  global := BuffTarget.once_new
  globalBelow := BuffTarget.below_new
  below _ := BuffTarget.below_new
  buff _ _ := rfl
  merged role uuid hle := by
    by_contra hne
    obtain ⟨table, hmem⟩ := lookup_mem _ hne
    exact absurd (hmerged role _ hmem) (not_lt.mpr hle)

theorem fits_new (property : ℕ → Base K V ℕ) (nextUuid : ℕ) : (new property nextUuid).Fits where
  once _ := BuffTarget.once_new
  merged _ _ _ hbuff := nomatch hbuff

end BuffManager

/-! ## Every run -/

/-- In every state of a run a delivery would call each buff on its target that has the callback once and no other, and
the roles have merged the properties of the buffs on them, just when no step of the run is spoiled. -/
theorem buffs_called_once {K V : Type} (property : ℕ → Base K V ℕ) (nextUuid : ℕ)
    (hmerged : ∀ role, ∀ m ∈ (property role).merged, m.1 < nextUuid) (acts : List (BuffAct K V)) :
    Throughout BuffManager.step BuffManager.Exact (.new property nextUuid) acts ↔
      Along BuffManager.step BuffManager.Unspoiled (.new property nextUuid) acts := by
  have hsound := BuffManager.sound_new hmerged
  refine throughout_iff_along (P := BuffManager.Sound) BuffManager.step_total (fun s a s' h hstep => h.step hstep) ?_ acts
    _ hsound (BuffManager.exact_of_fits hsound (BuffManager.fits_new property nextUuid))
  intro s a s' hs hexact hstep
  have hiff : s'.Fits ↔ s'.Exact := ⟨BuffManager.exact_of_fits (hs.step hstep), BuffManager.Exact.fits⟩
  exact hiff.symm.trans (BuffManager.fits_step hs hexact.fits hstep)

def tickScript : BuffScript := ⟨fun _ => false, fun callback => callback = .onTick⟩

def bare : Base ℕ ℚ ℕ := ⟨fun _ => none, [], fun _ => none⟩

theorem buffs_called_once_back : Throughout BuffManager.step BuffManager.Exact (.new (fun _ => bare) 0)
    [.add 1 tickScript fun _ => none, .move 0 2, .resume 0, .deliver .petBeforeAction 1, .move 0 1, .resume 0,
      .deliver .petBeforeAction 1, .clean 1 []] :=
  (buffs_called_once (fun _ => bare) 0 (fun _ _ hmem => nomatch hmem) _).mpr (by decide +kernel)

/-- A buff that is moved away and back, with no delivery in between. -/
theorem buff_called_twice : ¬ Throughout BuffManager.step BuffManager.Exact (.new (fun _ => bare) 0)
    [.add 1 tickScript fun _ => none, .move 0 2, .resume 0, .move 0 1, .resume 0] := by
  refine not_throughout (fun s => decide ((s.onEvent .petBeforeAction 1).2 = [0, 0])) (by decide +kernel) ?_
  intro s hs hexact
  have honce := hexact.once .petBeforeAction 1
  rw [of_decide_eq_true hs] at honce
  exact absurd honce (by decide)

end CServer.Fight
