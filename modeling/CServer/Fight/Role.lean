import CServer.Fight.Property
import CServer.Fight.TimelineTurns

/-! # `fight/battlefield/Role.lua`, `BuffManager.lua`: hit points, buffs and death

The hit points of a role are a formula over what it started with, what its buffs add, and what has been
assigned; reads are those from scratch. `ChangeHP` alone looks whether they have fallen to zero, and then
takes the buffs off and the role out of the queues of the timeline. `queued`, `dead` and `relives` are
what the timeline knows of a role: whether it is in a queue, whether it is in `current_wave_dead_list`,
and how many `UNIT_RELIVE` wait. `hps` are the hit points after each change, last first, and `removals`
counts how often the role was taken out; neither is in the source.
-/
namespace CServer.Fight
open CServer.Lib Function
open List hiding lookup

/-! ## Roles -/

structure Role where
  property : Base PropertyKey ℚ ℕ
  queued : Bool
  dead : Bool := false
  relives : ℕ := 0
  removals : ℕ := 0
  hps : List ℚ

/-- A property list, as `Property:Add` merges it: the raw ids only. -/
def buffProperty (property : ℕ → ℤ) : PropertyKey → Option ℚ
  | .id n => some (property n)
  | _ => none

def range (v min max : ℚ) : ℚ := if v > max then max else if v < min then min else v

namespace Role
variable (r : Role)

def hp : ℚ := r.property.read defaultFormula .hp

def hpp : ℚ := r.property.read defaultFormula .hpp

def setProperty (p : Base PropertyKey ℚ ℕ) : Role :=
  { r with property := p, hps := p.read defaultFormula .hp :: r.hps }

def setHP (value : ℚ) : Role := r.setProperty (r.property.write defaultFormula .hp value)

def stripOne (uuid : ℕ) : Role := r.setProperty (r.property.remove uuid)

def strip : Role → List ℕ → Role
  | r, [] => r
  | r, uuid :: uuids => strip (r.stripOne uuid) uuids

def stripHps : Role → List ℕ → List ℚ
  | _, [] => []
  | r, uuid :: uuids => (r.stripOne uuid).hp :: stripHps (r.stripOne uuid) uuids

/-- `Timeline:Remove`; where the role is in no queue its assertion fails, and the event manager goes on. -/
def timelineRemove : Role :=
  if r.queued then { r with queued := false, dead := true, removals := r.removals + 1 } else r

def unitRelive : Role :=
  if r.relives = 0 then r
  else if r.dead then { r with relives := r.relives - 1, dead := false, queued := true }
  else { r with relives := r.relives - 1 }

/-- `Role:Relive`; `UNIT_RELIVE` arrives later. -/
def relive (hp : Option ℚ) : Role :=
  let r := r.setHP (hp.getD 1)
  { r with relives := r.relives + 1 }

end Role

/-! ## Buffs -/

/-- `held` says that the buff is among those of its target. -/
structure Buff where
  uuid : ℕ
  target : ℕ
  property : ℕ → ℤ
  held : Bool

structure Battlefield where
  roles : ℕ → Role
  buffs : List Buff
  nextUuid : ℕ

namespace Battlefield
variable (s : Battlefield)

def setRole (uuid : ℕ) (r : Role) : Battlefield := { s with roles := update s.roles uuid r }

def setBuff (uuid : ℕ) (f : Buff → Buff) : Battlefield := { s with buffs := adjust Buff.uuid uuid f s.buffs }

def addBuff (target : ℕ) (property : ℕ → ℤ) : Battlefield :=
  let r := s.roles target
  { s.setRole target (r.setProperty (r.property.add s.nextUuid (buffProperty property))) with
    buffs := s.buffs ++ [⟨s.nextUuid, target, property, true⟩]
    nextUuid := s.nextUuid + 1 }

def removeBuff (uuid : ℕ) : Battlefield :=
  match lookup Buff.uuid uuid s.buffs with
  | none => s
  | some buff =>
    let r := s.roles buff.target
    (s.setRole buff.target (r.stripOne uuid)).setBuff uuid fun b => { b with held := false }

def moveBuff (uuid target : ℕ) : Battlefield :=
  match lookup Buff.uuid uuid s.buffs with
  | none => s
  | some buff =>
    if buff.target = target then s
    else
      let r := s.roles buff.target
      let s := s.setRole buff.target (r.stripOne uuid)
      let r := s.roles target
      (s.setRole target (r.setProperty (r.property.add uuid (buffProperty buff.property)))).setBuff uuid
        fun b => { b with target := target, held := true }

/-- The buffs of a role in the order in which `pairs` visits them, which may be any. -/
def buffsOf (role : ℕ) (visit : List ℕ) : List ℕ :=
  let held := (s.buffs.filter fun b => b.target = role ∧ b.held = true).map Buff.uuid
  (visit.filter fun u => u ∈ held) ++ held.filter fun u => u ∉ visit

def clean (role : ℕ) (visit : List ℕ) : Battlefield :=
  { s.setRole role ((s.roles role).strip (s.buffsOf role visit)) with
    buffs := s.buffs.map fun b => if b.target = role then { b with held := false } else b }

def kill (role : ℕ) (visit : List ℕ) : Battlefield :=
  let s := s.clean role visit
  s.setRole role (s.roles role).timelineRemove

def changeHP (role : ℕ) (value : ℚ) (visit : List ℕ) : Battlefield :=
  let r := s.roles role
  let r' := r.setHP (range (r.hp + value) 0 r.hpp)
  if r.hp > 0 ∧ r'.hp ≤ 0 then (s.setRole role r').kill role visit else s.setRole role r'

end Battlefield

inductive BattlefieldAct
  | hurt (role : ℕ) (value : ℚ) (visit : List ℕ)
  | health (role : ℕ) (value : ℚ) (visit : List ℕ)
  | changeHP (role : ℕ) (value : ℚ) (visit : List ℕ)
  | relive (role : ℕ) (hp : Option ℚ)
  | addBuff (target : ℕ) (property : ℕ → ℤ)
  | moveBuff (uuid target : ℕ)
  | removeBuff (uuid : ℕ)
  | unitRelive (role : ℕ)

def battlefieldStep (s : Battlefield) : BattlefieldAct → Except Fault Battlefield
  | .hurt role value visit => .ok (s.changeHP role (-value) visit)
  | .health role value visit => .ok (s.changeHP role value visit)
  | .changeHP role value visit => .ok (s.changeHP role value visit)
  | .relive role hp => .ok (s.setRole role ((s.roles role).relive hp))
  | .addBuff target property => .ok (s.addBuff target property)
  | .moveBuff uuid target => .ok (s.moveBuff uuid target)
  | .removeBuff uuid => .ok (s.removeBuff uuid)
  | .unitRelive role => .ok (s.setRole role (s.roles role).unitRelive)

def falls : List ℚ → ℕ
  | new :: old :: hps => (if 0 < old ∧ new ≤ 0 then 1 else 0) + falls (old :: hps)
  | _ => 0

/-- In a queue only while alive, and taken out once for each fall. -/
structure Role.Mortal (r : Role) : Prop where
  alive : r.queued = true → 0 < r.hp
  once : r.removals = falls r.hps

def Role.Survives (r : Role) (p : Base PropertyKey ℚ ℕ) : Prop := 0 < r.hp → 0 < p.read defaultFormula .hp

/-- `ChangeHP` brings a role down to zero only while it is in a queue and no `UNIT_RELIVE` of it waits,
and taking its buffs off does not raise it above zero again. -/
def Role.Fair (r : Role) (value : ℚ) (buffs : List ℕ) : Prop :=
  let r' := r.setHP (range (r.hp + value) 0 r.hpp)
  0 < r.hp → r'.hp ≤ 0 → r.queued = true ∧ r.relives = 0 ∧ ∀ hp ∈ r'.stripHps buffs, hp ≤ 0

/-- The steps at which nothing but `ChangeHP` brings hit points down to zero: buffs come and go without a
fall, and a role is revived with more than zero. -/
def OnlyHPKills (s : Battlefield) : BattlefieldAct → Prop
  | .hurt role value visit => (s.roles role).Fair (-value) (s.buffsOf role visit)
  | .health role value visit => (s.roles role).Fair value (s.buffsOf role visit)
  | .changeHP role value visit => (s.roles role).Fair value (s.buffsOf role visit)
  | .relive _ hp => 0 < hp.getD 1
  | .addBuff target property =>
    (s.roles target).Survives ((s.roles target).property.add s.nextUuid (buffProperty property))
  | .moveBuff uuid target =>
    ∀ buff ∈ lookup Buff.uuid uuid s.buffs, buff.target ≠ target →
      (s.roles buff.target).Survives ((s.roles buff.target).property.remove uuid) ∧
        (s.roles target).Survives ((s.roles target).property.add uuid (buffProperty buff.property))
  | .removeBuff uuid =>
    ∀ buff ∈ lookup Buff.uuid uuid s.buffs,
      (s.roles buff.target).Survives ((s.roles buff.target).property.remove uuid)
  | .unitRelive _ => True

instance (r : Role) (p : Base PropertyKey ℚ ℕ) : Decidable (r.Survives p) := inferInstanceAs (Decidable (_ → _))

instance (r : Role) (value : ℚ) (buffs : List ℕ) : Decidable (r.Fair value buffs) :=
  inferInstanceAs (Decidable (_ → _ → _))

instance (s : Battlefield) : (a : BattlefieldAct) → Decidable (OnlyHPKills s a)
  | .hurt role value visit => inferInstanceAs (Decidable ((s.roles role).Fair (-value) (s.buffsOf role visit)))
  | .health role value visit => inferInstanceAs (Decidable ((s.roles role).Fair value (s.buffsOf role visit)))
  | .changeHP role value visit => inferInstanceAs (Decidable ((s.roles role).Fair value (s.buffsOf role visit)))
  | .relive _ hp => inferInstanceAs (Decidable (0 < hp.getD 1))
  | .addBuff target property => inferInstanceAs (Decidable
      ((s.roles target).Survives ((s.roles target).property.add s.nextUuid (buffProperty property))))
  | .moveBuff uuid target => inferInstanceAs (Decidable (∀ buff ∈ lookup Buff.uuid uuid s.buffs, buff.target ≠ target →
      (s.roles buff.target).Survives ((s.roles buff.target).property.remove uuid) ∧
        (s.roles target).Survives ((s.roles target).property.add uuid (buffProperty buff.property))))
  | .removeBuff uuid => inferInstanceAs (Decidable (∀ buff ∈ lookup Buff.uuid uuid s.buffs,
      (s.roles buff.target).Survives ((s.roles buff.target).property.remove uuid)))
  | .unitRelive _ => instDecidableTrue

/-! ## What the timeline has of a role -/

section Known
variable {cfg : TimelineConfig} {t : Timeline} {r : Role} {obj : ℕ}

/-- `queued` and `dead` are what the queues and the list of the dead say of the object. -/
structure Role.Known (r : Role) (t : Timeline) (obj : ℕ) : Prop where
  queued : r.queued = t.timeline obj
  dead : r.dead = true ↔ obj ∈ t.deadList

theorem timeline_of_find (ht : t.Placed) {q : TimelineArray} (hq : q.Agrees) (hle : q.array.count obj ≤ t.located obj)
    (hfind : q.find obj = true) : t.timeline obj = true := by
  have hpos := count_pos_iff.mpr ((hq obj).mp hfind)
  rw [ht.located obj] at hle
  by_contra hno
  rw [if_neg hno] at hle
  omega

theorem Timeline.leave_dead {n : ℤ} (hside : t.sideLeft.get (cfg.unit obj).side = some n) :
    (t.leave cfg obj false).timeline = t.timeline ∧ obj ∈ (t.leave cfg obj false).deadList := by
  unfold Timeline.leave
  simp only [hside]
  exact ⟨rfl, mem_insert_self⟩

theorem Timeline.add_back (hside : (cfg.unit obj).side ≠ 0) :
    (t.add cfg obj t.wave).timeline obj = true ∧ (t.add cfg obj t.wave).deadList = t.deadList := by
  unfold Timeline.add
  rw [if_neg hside]
  split
  · next hin => exact ⟨hin, rfl⟩
  · rw [if_neg (lt_irrefl _)]
    simp only [if_true, Timeline.enterTimeline]
    split
    · exact ⟨update_self .., rfl⟩
    · exact ⟨update_self .., rfl⟩

/-- `UNIT_DEAD_SYNC` has the timeline do with the object what `timelineRemove` does with its flags. -/
theorem Role.Known.timelineRemove (h : r.Known t obj) (ht : t.Placed)
    (hside : ∃ n, t.sideLeft.get (cfg.unit obj).side = some n) :
    r.timelineRemove.Known (t.remove cfg obj false) obj := by
  obtain ⟨n, hn⟩ := hside
  have hgone : ∀ t' : Timeline, t'.timeline = update t.timeline obj false → t'.sideLeft = t.sideLeft →
      t.timeline obj = true → r.timelineRemove.Known (t'.leave cfg obj false) obj := by
    intro t' htimeline hleft hin
    obtain ⟨hsame, hdead⟩ := @Timeline.leave_dead cfg t' obj n (hleft ▸ hn)
    rw [Role.timelineRemove, if_pos (h.queued.trans hin)]
    refine ⟨?_, iff_of_true rfl hdead⟩
    rw [hsame, htimeline, update_self]
  unfold Timeline.remove
  simp only
  split
  · next hfind =>
    exact hgone _ rfl rfl (timeline_of_find ht ht.current (by rw [Timeline.located]; omega) hfind)
  · next hcurrent =>
    split
    · next hfind =>
      exact hgone _ rfl rfl (timeline_of_find ht ht.wait (by rw [Timeline.located]; omega) hfind)
    · next hwait =>
      split
      · next hfind =>
        exact hgone _ rfl rfl (timeline_of_find ht ht.next (by rw [Timeline.located]; omega) hfind)
      · next hnext =>
        -- it is in no queue, and the assertion fails
        have hzero : t.located obj = 0 := by
          rw [Timeline.located, count_eq_zero.mpr fun hmem => hcurrent ((ht.current obj).mpr hmem),
            count_eq_zero.mpr fun hmem => hwait ((ht.wait obj).mpr hmem),
            count_eq_zero.mpr fun hmem => hnext ((ht.next obj).mpr hmem)]
        have hout : t.timeline obj = false := by
          have hlocated := ht.located obj
          rw [hzero] at hlocated
          by_contra hin
          rw [if_pos (Bool.eq_true_of_not_eq_false hin)] at hlocated
          exact absurd hlocated (by decide)
        have hqueued : ¬ r.queued = true := by
          rw [h.queued, hout]
          exact Bool.false_ne_true
        rw [Role.timelineRemove, if_neg hqueued]
        refine ⟨?_, h.dead⟩
        change r.queued = update t.timeline obj false obj
        rw [update_self, h.queued, hout]

/-- When `UNIT_RELIVE` has arrived and its `Add` is carried out, the flags are those of `unitRelive`. -/
theorem Role.Known.unitRelive (h : r.Known t obj) (hidle : t.todo = []) (honce : t.deadList.count obj ≤ 1)
    (hside : (cfg.unit obj).side ≠ 0) (hrelives : r.relives ≠ 0) :
    ∃ t', run (timelineStep cfg) t [.call (.unitRelive obj), .next] = .ok t' ∧ r.unitRelive.Known t' obj := by
  have hmay : t.mayCall (.unitRelive obj) = true := by
    rw [Timeline.mayCall, hidle]
    rfl
  simp only [run, timelineStep, hmay, if_true, Timeline.call, Timeline.unitRelive]
  rw [Role.unitRelive, if_neg hrelives]
  by_cases hdead : obj ∈ t.deadList
  · have herased : obj ∉ t.deadList.erase obj := by
      rw [← count_pos_iff, count_erase_self]
      omega
    rw [if_pos hdead, if_pos (h.dead.mpr hdead)]
    let u : Timeline := { t with deadList := t.deadList.erase obj, todo := .ret :: t.todo }
    obtain ⟨hin, hsame⟩ := @Timeline.add_back cfg u obj hside
    have hnot : obj ∉ (u.add cfg obj u.wave).deadList := by
      rw [hsame]
      exact herased
    exact ⟨u.add cfg obj u.wave, rfl, hin.symm, iff_of_false Bool.false_ne_true hnot⟩
  · rw [if_neg hdead, if_neg fun hd => hdead (h.dead.mp hd)]
    simp only [hidle]
    exact ⟨t, rfl, h.queued, h.dead⟩

end Known

/-! ## What changes keep -/

theorem falls_cons (new old : ℚ) (hps : List ℚ) :
    falls (new :: old :: hps) = (if 0 < old ∧ new ≤ 0 then 1 else 0) + falls (old :: hps) := rfl

theorem hp_setHP (r : Role) (value : ℚ) : (r.setHP value).hp = value := by
  have hread : (r.property.write defaultFormula .hp value).read defaultFormula .hp =
      r.property.read defaultFormula .hp - (r.property.change .hp).getD 0 +
        ((r.property.change .hp).getD 0 + (value - r.property.read defaultFormula .hp)) := Base.read_change_self
  change (r.property.write defaultFormula .hp value).read defaultFormula .hp = value
  rw [hread]
  ring

/-- The hit points as they are now are the last of the history. -/
structure Role.Kept (r : Role) : Prop where
  current : r.hps.head? = some r.hp
  alive : r.queued = true → 0 < r.hp
  waiting : 0 < r.relives → 0 < r.hp
  once : r.removals = falls r.hps

namespace Role.Kept
variable {r : Role}

theorem mortal (h : r.Kept) : r.Mortal := ⟨h.alive, h.once⟩

theorem falls_setProperty (h : r.hps.head? = some r.hp) (p : Base PropertyKey ℚ ℕ) :
    falls (r.setProperty p).hps = (if 0 < r.hp ∧ p.read defaultFormula .hp ≤ 0 then 1 else 0) + falls r.hps := by
  obtain ⟨hps, hhps⟩ := List.head?_eq_some_iff.mp h
  rw [Role.setProperty, hhps]
  exact falls_cons _ _ _

theorem setProperty (h : r.Kept) {p : Base PropertyKey ℚ ℕ} (hp : r.Survives p) : (r.setProperty p).Kept where
  current := rfl
  alive := fun hq => hp (h.alive hq)
  waiting := fun hr => hp (h.waiting hr)
  once := by
    rw [falls_setProperty h.current, if_neg fun hf => not_lt.mpr hf.2 (hp hf.1), Nat.zero_add]
    exact h.once

theorem relive (h : r.Kept) {hp : Option ℚ} (hpos : 0 < hp.getD 1) : (r.relive hp).Kept := by
  have hset : (r.setHP (hp.getD 1)).Kept := by
    refine h.setProperty fun _ => ?_
    exact hpos.trans_eq (hp_setHP r _).symm
  exact ⟨hset.current, hset.alive, fun _ => hpos.trans_eq (hp_setHP r _).symm, hset.once⟩

theorem unitRelive (h : r.Kept) : r.unitRelive.Kept := by
  unfold Role.unitRelive
  split
  · exact h
  · next hr =>
    have halive := h.waiting (Nat.pos_of_ne_zero hr)
    split
    · exact ⟨h.current, fun _ => halive, fun _ => halive, h.once⟩
    · exact ⟨h.current, h.alive, fun _ => halive, h.once⟩

theorem strip_falls (uuids : List ℕ) : ∀ r : Role, r.hps.head? = some r.hp → r.hp ≤ 0 →
    (∀ hp ∈ r.stripHps uuids, hp ≤ 0) →
    (r.strip uuids).hps.head? = some (r.strip uuids).hp ∧ falls (r.strip uuids).hps = falls r.hps ∧
      (r.strip uuids).queued = r.queued ∧ (r.strip uuids).relives = r.relives ∧
      (r.strip uuids).removals = r.removals := by
  induction uuids with
  | nil => exact fun r hc _ _ => ⟨hc, rfl, rfl, rfl, rfl⟩
  | cons uuid uuids ih =>
    intro r hc hdead hall
    have hone := hall _ mem_cons_self
    obtain ⟨h1, h2, h3, h4, h5⟩ := ih (r.stripOne uuid) rfl hone fun hp hmem => hall hp (mem_cons_of_mem _ hmem)
    refine ⟨h1, ?_, h3, h4, h5⟩
    rw [Role.strip, h2, Role.stripOne, falls_setProperty hc, if_neg fun hf => not_lt.mpr hdead hf.1, Nat.zero_add]

theorem killed (h : r.Kept) {value : ℚ} {uuids : List ℕ} (hfair : r.Fair value uuids) (hbefore : 0 < r.hp)
    (hafter : (r.setHP (range (r.hp + value) 0 r.hpp)).hp ≤ 0) :
    ((r.setHP (range (r.hp + value) 0 r.hpp)).strip uuids).timelineRemove.Kept := by
  obtain ⟨hqueued, hrelives, hall⟩ := hfair hbefore hafter
  obtain ⟨hc, hf, hq, hr, hm⟩ := strip_falls uuids _ rfl hafter hall
  have hone : falls (r.setHP (range (r.hp + value) 0 r.hpp)).hps = 1 + falls r.hps := by
    rw [Role.setHP, falls_setProperty h.current, if_pos ⟨hbefore, hafter⟩]
  have hq' : ((r.setHP (range (r.hp + value) 0 r.hpp)).strip uuids).queued = true := hq.trans hqueued
  rw [Role.timelineRemove, if_pos hq']
  refine ⟨hc, nofun, fun hpos => ?_, ?_⟩
  · have hzero : ((r.setHP (range (r.hp + value) 0 r.hpp)).strip uuids).relives = 0 := hr.trans hrelives
    exact absurd hzero hpos.ne'
  · change ((r.setHP (range (r.hp + value) 0 r.hpp)).strip uuids).removals + 1 = _
    rw [hm, hf, hone, Nat.add_comm]
    exact congrArg (1 + ·) h.once

end Role.Kept

/-! ## Runs -/

def Battlefield.Kept (s : Battlefield) : Prop := ∀ uuid, (s.roles uuid).Kept

namespace Battlefield.Kept
variable {s : Battlefield}

theorem setRole (h : s.Kept) {uuid : ℕ} {r : Role} (hr : r.Kept) : (s.setRole uuid r).Kept := by
  intro u
  simp only [Battlefield.setRole]
  by_cases hu : u = uuid
  · rw [hu, update_self]
    exact hr
  · rw [update_of_ne hu]
    exact h u

theorem changeHP (h : s.Kept) {role : ℕ} {value : ℚ} {visit : List ℕ}
    (hfair : (s.roles role).Fair value (s.buffsOf role visit)) : (s.changeHP role value visit).Kept := by
  unfold Battlefield.changeHP
  simp only
  split
  · next hdies =>
    intro u
    simp only [Battlefield.kill, Battlefield.clean, Battlefield.setRole, update_self]
    by_cases hu : u = role
    · rw [hu, update_self]
      exact (h role).killed hfair hdies.1 hdies.2
    · rw [update_of_ne hu, update_of_ne hu, update_of_ne hu]
      exact h u
  · next hlives =>
    exact h.setRole ((h role).setProperty fun hp => lt_of_not_ge fun hle => hlives ⟨hp, hle⟩)

theorem removeBuff (h : s.Kept) {uuid : ℕ} (hs : OnlyHPKills s (.removeBuff uuid)) : (s.removeBuff uuid).Kept := by
  unfold Battlefield.removeBuff
  cases hb : lookup Buff.uuid uuid s.buffs with
  | none => exact h
  | some buff => exact h.setRole ((h buff.target).setProperty (hs buff hb))

theorem moveBuff (h : s.Kept) {uuid target : ℕ} (hs : OnlyHPKills s (.moveBuff uuid target)) :
    (s.moveBuff uuid target).Kept := by
  unfold Battlefield.moveBuff
  cases hb : lookup Buff.uuid uuid s.buffs with
  | none => exact h
  | some buff =>
    simp only
    split
    · exact h
    · next hne =>
      obtain ⟨hfrom, hto⟩ := hs buff hb hne
      have hother : (s.setRole buff.target ((s.roles buff.target).stripOne uuid)).roles target = s.roles target :=
        update_of_ne (Ne.symm hne) _ _
      rw [hother]
      exact (h.setRole ((h buff.target).setProperty hfrom)).setRole ((h target).setProperty hto)

end Battlefield.Kept

theorem battlefieldStep_kept {s s' : Battlefield} {a : BattlefieldAct} (h : s.Kept) (hs : OnlyHPKills s a)
    (hstep : battlefieldStep s a = .ok s') : s'.Kept := by
  cases a with
  | hurt role value visit =>
    obtain rfl := Except.ok.inj hstep
    exact h.changeHP hs
  | health role value visit =>
    obtain rfl := Except.ok.inj hstep
    exact h.changeHP hs
  | changeHP role value visit =>
    obtain rfl := Except.ok.inj hstep
    exact h.changeHP hs
  | relive role hp =>
    obtain rfl := Except.ok.inj hstep
    exact h.setRole ((h role).relive hs)
  | addBuff target property =>
    obtain rfl := Except.ok.inj hstep
    exact h.setRole ((h target).setProperty hs)
  | moveBuff uuid target =>
    obtain rfl := Except.ok.inj hstep
    exact h.moveBuff hs
  | removeBuff uuid =>
    obtain rfl := Except.ok.inj hstep
    exact h.removeBuff hs
  | unitRelive role =>
    obtain rfl := Except.ok.inj hstep
    exact h.setRole (h role).unitRelive

/-- Roles as they enter the timeline, where `AddRole` asserts that they are alive. -/
structure Role.Entered (r : Role) : Prop where
  alive : r.queued = true → 0 < r.hp
  relives : r.relives = 0
  removals : r.removals = 0
  hps : r.hps = [r.hp]

theorem Role.Entered.kept {r : Role} (h : r.Entered) : r.Kept := by
  refine ⟨?_, h.alive, fun hr => absurd h.relives hr.ne', ?_⟩
  · rw [h.hps]
    rfl
  · rw [h.removals, h.hps]
    rfl

/-- In every run in which only `ChangeHP` kills, every role is in a queue only while alive, and is taken
out once for each time its hit points fall to zero or below. -/
theorem roles_die_once (s : Battlefield) (hs : ∀ uuid, (s.roles uuid).Entered) (acts : List BattlefieldAct)
    (h : Along battlefieldStep OnlyHPKills s acts) :
    Throughout battlefieldStep (fun s => ∀ uuid, (s.roles uuid).Mortal) s acts :=
  run_throughout (fun _ hk uuid => (hk uuid).mortal) (fun _ _ _ => battlefieldStep_kept) acts s
    (fun uuid => (hs uuid).kept) h

def soldier : Role where
  property := ⟨fun k => if k = .id 1501 then some 100 else none, [], fun _ => none⟩
  queued := true
  hps := [100]

theorem soldier_entered : soldier.Entered :=
  ⟨fun _ => by decide +kernel, rfl, rfl, by decide +kernel⟩

def soldiers : Battlefield := ⟨fun _ => soldier, [], 0⟩

def vigour (key : ℕ) : ℤ := if key = 1501 then 50 else 0

theorem roles_die_once_soldiers : Throughout battlefieldStep (fun s => ∀ uuid, (s.roles uuid).Mortal) soldiers
    [.addBuff 1 vigour, .hurt 1 60 [], .hurt 1 90 [], .relive 1 (some 5), .unitRelive 1, .hurt 1 10 []] := by
  refine roles_die_once soldiers (fun _ => soldier_entered) _ ?_
  decide +kernel

/-- The buff that kept a hurt role alive is taken off, and the role stays in its queue. -/
theorem buff_removed_unnoticed : ¬ ∀ (s : Battlefield), (∀ uuid, (s.roles uuid).Entered) →
    ∀ acts, Throughout battlefieldStep (fun s => ∀ uuid, (s.roles uuid).Mortal) s acts := by
  intro h
  refine not_throughout (fun s => (s.roles 1).queued && decide ((s.roles 1).hp ≤ 0)) ?_ ?_
    (h soldiers (fun _ => soldier_entered) [.addBuff 1 vigour, .hurt 1 120 [], .removeBuff 0])
  · decide +kernel
  · intro s hs hm
    obtain ⟨hq, hdead⟩ := Bool.and_eq_true_iff.mp hs
    exact not_lt.mpr (of_decide_eq_true hdead) ((hm 1).alive hq)

end CServer.Fight
