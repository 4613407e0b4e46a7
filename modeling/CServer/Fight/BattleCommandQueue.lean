import Mathlib.Data.Finset.Insert
import Mathlib.Tactic.SplitIfs

/-! # Commands in a battle

`battlefield/BattleCommandQueue.lua`. A turn of the loop of `Tick` is a step of its own, so that whatever an action sets off
may push commands and move the timeline on in between. `AllBattleDoCommand` pushes one table into the queues of several
battles, and each of them writes its tick. Nothing in the code registers a watcher.
-/
namespace CServer.Fight
open List

inductive CommandType
  | INPUT | MONSTER_ENTER | MONSTER_HP_CHANGE | PLAYER_STATUS_CHANGE | other
  deriving DecidableEq

/-- A command without a tick has tick 0. -/
structure Command where
  type : CommandType
  tick : ℕ
  pid : Option ℤ
  refid : ℤ
  syncId : ℤ
  skill : ℤ
  target : ℤ
  value : ℤ

def Command.untimed (t : Command) : Command := { t with tick := 0 }

structure BattlePids where
  pid : ℤ
  attackerPid : ℤ
  defenderPid : ℤ

inductive BattleCall
  | setBattleFocusTag (refid syncId target : ℤ)
  | input (refid syncId skill target : ℤ)
  | addRoleByRef (refid syncId : ℤ)
  | changeRoleHP (refid syncId value : ℤ)

variable (game : BattlePids)

def Foreign (t : Command) : Prop := t.pid ≠ some 0 ∧ t.pid ≠ some game.attackerPid ∧ t.pid ≠ some game.defenderPid

instance (t : Command) : Decidable (Foreign game t) := inferInstanceAs (Decidable (_ ∧ _ ∧ _))

def IsInput (t : Command) : Bool :=
  if t.type ≠ .INPUT then false
  else if Foreign game t then false
  else if t.skill = 98000 then false
  else if t.skill ≥ 99000 then false
  else true

/-- `found`: `GetRole` finds the role. -/
def commandINPUT (found : Bool) (t : Command) : Option BattleCall × Bool :=
  if Foreign game t then (none, false)
  else if t.skill = 98000 then (some (.setBattleFocusTag t.refid t.syncId t.target), false)
  else if t.skill ≥ 99000 then (none, false)
  else if !found then (none, false)
  else (some (.input t.refid t.syncId t.skill t.target), true)

/-- What is called on the battle, and `break_tick`. -/
def commandAction (found : Bool) (t : Command) : Option BattleCall × Bool :=
  match t.type with
  | .INPUT => commandINPUT game found t
  | .MONSTER_ENTER => (if Foreign game t then none else some (.addRoleByRef t.refid t.syncId), false)
  | .MONSTER_HP_CHANGE => (if t.pid = some game.pid then none else some (.changeRoleHP t.refid t.syncId t.value), false)
  | .PLAYER_STATUS_CHANGE | .other => (none, false)

/-- A command, with the tick it had, that was executed at `time` in this call of `Tick`. -/
structure Executed where
  cmd : Command
  time : ℕ
  call : ℕ
  doInput : Bool
  action : Option BattleCall

/-- `ticking` holds the arguments of a call of `Tick` that has not returned; `calls`, `pushed` and `executed` are the trace. -/
structure BattleCommandQueue where
  queue : List Command
  index : ℕ
  timelineTick : ℕ
  ticking : Option (ℕ × Bool)
  calls : ℕ
  pushed : List Command
  executed : List Executed

namespace BattleCommandQueue

def init : BattleCommandQueue := ⟨[], 0, 0, none, 0, [], []⟩

variable (q : BattleCommandQueue)

def Push (cmd : Command) : BattleCommandQueue :=
  { q with
    queue := q.queue ++ [if cmd.tick = 0 then { cmd with tick := q.timelineTick } else cmd]
    pushed := q.pushed ++ [cmd] }

def writeTick (i tick : ℕ) : BattleCommandQueue :=
  { q with queue := q.queue.modify i fun cmd => { cmd with tick } }

/-- `Battle:Tick` passes the tick of the timeline. -/
def Tick (doInput : Bool) : BattleCommandQueue :=
  { q with ticking := some (q.timelineTick, doInput), calls := q.calls + 1 }

def execute (doInput found : Bool) (cmd : Command) : BattleCommandQueue :=
  { q.writeTick q.index q.timelineTick with
    index := q.index + 1
    ticking := if (commandAction game found cmd).2 then none else q.ticking
    executed := q.executed ++ [⟨cmd, q.timelineTick, q.calls, doInput, (commandAction game found cmd).1⟩] }

def turn (found : Bool) : BattleCommandQueue :=
  match q.ticking, q.queue[q.index]? with
  | none, _ => q
  | some _, none => { q with ticking := none }
  | some (tick, doInput), some cmd =>
    if cmd.tick > tick ∨ (!doInput && IsInput game cmd) then { q with ticking := none } else q.execute game doInput found cmd

end BattleCommandQueue

inductive QueueEvent
  | push (cmd : Command)
  | tick (doInput : Bool)
  | turn (found : Bool)
  | timeline (ticks : ℕ)
  /-- Another battle that has the command writes its tick. -/
  | shared (i tick : ℕ)

/-- The timeline never goes back; `Tick` is not called before it has returned. -/
def queueStep (q : BattleCommandQueue) : QueueEvent → BattleCommandQueue
  | .push cmd => q.Push cmd
  | .tick doInput => if q.ticking.isSome then q else q.Tick doInput
  | .turn found => q.turn game found
  | .timeline ticks => { q with timelineTick := q.timelineTick + ticks }
  | .shared i tick => q.writeTick i tick

/-! ## Every command in its turn -/

def Executed.GivesInput (e : Executed) : Prop := ∃ refid syncId skill target, e.action = some (.input refid syncId skill target)

structure CommandsInOrder (q : BattleCommandQueue) : Prop where
  taken : q.executed.map (·.cmd.untimed) = (q.pushed.take q.index).map (·.untimed)
  queue : q.queue.map (·.untimed) = q.pushed.map (·.untimed)
  due : ∀ e ∈ q.executed, e.cmd.tick ≤ e.time ∧ e.time ≤ q.timelineTick
  sorted : q.executed.Pairwise (·.time ≤ ·.time)
  asked : ∀ e ∈ q.executed, IsInput game e.cmd → e.doInput
  one_input : q.executed.Pairwise fun e e' => e.GivesInput → e.call < e'.call

/-- An input ends its call. -/
structure QueueKept (q : BattleCommandQueue) : Prop extends CommandsInOrder game q where
  index_le : q.index ≤ q.pushed.length
  limit : ∀ tick doInput, q.ticking = some (tick, doInput) → tick ≤ q.timelineTick
  calls : ∀ e ∈ q.executed, e.call ≤ q.calls
  ended : q.ticking.isSome → ∀ e ∈ q.executed, e.GivesInput → e.call < q.calls

variable {game} {q : BattleCommandQueue}

theorem untimed_writeTick (i tick : ℕ) : (q.writeTick i tick).queue.map (·.untimed) = q.queue.map (·.untimed) := by
  rw [BattleCommandQueue.writeTick]
  induction q.queue generalizing i with
  | nil => simp
  | cons cmd cmds ih =>
    cases i with
    | zero => rfl
    | succ i => simpa using ih i

theorem givesInput_breaks {found : Bool} {cmd : Command} {refid syncId skill target : ℤ}
    (h : (commandAction game found cmd).1 = some (.input refid syncId skill target)) : (commandAction game found cmd).2 = true := by
  unfold commandAction at h ⊢
  cases htype : cmd.type with
  | INPUT =>
    simp only [htype, commandINPUT] at h ⊢
    split_ifs at h ⊢ <;> simp at h ⊢
  | MONSTER_ENTER => simp [htype] at h
  | MONSTER_HP_CHANGE => simp [htype] at h
  | PLAYER_STATUS_CHANGE => simp [htype] at h
  | other => simp [htype] at h

theorem QueueKept.stop (h : QueueKept game q) : QueueKept game { q with ticking := none } :=
  ⟨⟨h.taken, h.queue, h.due, h.sorted, h.asked, h.one_input⟩, h.index_le, nofun, h.calls, nofun⟩

theorem QueueKept.push (h : QueueKept game q) (cmd : Command) : QueueKept game (q.Push cmd) := by
  refine ⟨⟨?_, ?_, h.due, h.sorted, h.asked, h.one_input⟩, ?_, h.limit, h.calls, h.ended⟩
  · exact h.taken.trans (congrArg _ (take_append_of_le_length h.index_le).symm)
  · simp only [BattleCommandQueue.Push, map_append, h.queue, map_singleton]
    split_ifs <;> rfl
  · exact h.index_le.trans (length_append ▸ Nat.le_add_right _ _)

theorem QueueKept.writeTick (h : QueueKept game q) (i tick : ℕ) : QueueKept game (q.writeTick i tick) :=
  ⟨⟨h.taken, (untimed_writeTick i tick).trans h.queue, h.due, h.sorted, h.asked, h.one_input⟩, h.index_le, h.limit, h.calls,
    h.ended⟩

theorem QueueKept.execute (h : QueueKept game q) {tick : ℕ} {doInput : Bool} {cmd : Command}
    (hticking : q.ticking = some (tick, doInput)) (hcmd : q.queue[q.index]? = some cmd) (hdue : cmd.tick ≤ tick)
    (hasked : IsInput game cmd → doInput) (found : Bool) : QueueKept game (q.execute game doInput found cmd) := by
  have hlimit := h.limit tick doInput hticking
  have hended := h.ended (by rw [hticking]; rfl)
  have hpushed : (q.pushed[q.index]?).map (·.untimed) = some cmd.untimed := by
    rw [← List.getElem?_map, ← h.queue, List.getElem?_map, hcmd, Option.map_some]
  obtain ⟨given, hgiven, huntimed⟩ := Option.map_eq_some_iff.mp hpushed
  have hlast : ∀ {P : Executed → Prop} {x : Executed}, (∀ e ∈ q.executed, P e) → P x → ∀ e ∈ q.executed ++ [x], P e :=
    fun hold hx => forall_mem_append.mpr ⟨hold, forall_mem_singleton.mpr hx⟩
  refine ⟨⟨?_, (untimed_writeTick _ _).trans h.queue, hlast h.due ⟨hdue.trans hlimit, le_rfl⟩, ?_, hlast h.asked hasked, ?_⟩,
    (List.getElem?_eq_some_iff.mp hgiven).1, ?_, hlast h.calls le_rfl, ?_⟩
  · simp only [BattleCommandQueue.execute, BattleCommandQueue.writeTick]
    rw [map_append, h.taken, map_singleton, take_add_one, hgiven, map_append, ← huntimed]
    rfl
  · exact pairwise_append.mpr ⟨h.sorted, pairwise_singleton _ _,
      fun e he => forall_mem_singleton.mpr (h.due e he).2⟩
  · exact pairwise_append.mpr ⟨h.one_input, pairwise_singleton _ _,
      fun e he => forall_mem_singleton.mpr (hended e he)⟩
  · intro tick' doInput' hticking'
    simp only [BattleCommandQueue.execute] at hticking'
    split_ifs at hticking'
    exact h.limit _ _ hticking'
  · intro hsome
    refine hlast hended ?_
    rintro ⟨refid, syncId, skill, target, hgives⟩
    simp [BattleCommandQueue.execute, givesInput_breaks hgives] at hsome

theorem QueueKept.turn (h : QueueKept game q) (found : Bool) : QueueKept game (q.turn game found) := by
  unfold BattleCommandQueue.turn
  cases hticking : q.ticking with
  | none => exact h
  | some args =>
    obtain ⟨tick, doInput⟩ := args
    cases hcmd : q.queue[q.index]? with
    | none => exact h.stop
    | some cmd =>
      simp only
      split_ifs with hwaits
      · exact h.stop
      · rw [not_or, not_lt] at hwaits
        refine h.execute hticking hcmd hwaits.1 (fun hinput => ?_) found
        simpa [hinput] using hwaits.2

theorem QueueKept.step (h : QueueKept game q) (e : QueueEvent) : QueueKept game (queueStep game q e) := by
  cases e with
  | push cmd => exact h.push cmd
  | tick doInput =>
    unfold queueStep
    split_ifs
    · exact h
    · refine ⟨⟨h.taken, h.queue, h.due, h.sorted, h.asked, h.one_input⟩, h.index_le, fun tick _ ht => ?_,
        fun e he => (h.calls e he).trans (Nat.le_succ _), fun _ e he _ => Nat.lt_succ_of_le (h.calls e he)⟩
      exact (Prod.mk.inj (Option.some.inj ht)).1.ge
  | turn found => exact h.turn found
  | timeline ticks =>
    exact ⟨⟨h.taken, h.queue, fun e he => ⟨(h.due e he).1, (h.due e he).2.trans (Nat.le_add_right _ _)⟩, h.sorted, h.asked,
      h.one_input⟩, h.index_le, fun tick _ ht => (h.limit _ _ ht).trans (Nat.le_add_right _ _), h.calls, h.ended⟩
  | shared i tick => exact h.writeTick i tick

theorem QueueKept.run (h : QueueKept game q) (events : List QueueEvent) : QueueKept game (events.foldl (queueStep game) q) := by
  induction events generalizing q with
  | nil => exact h
  | cons e events ih => exact ih (h.step e)

/-- Commands are executed once each, in the order in which they were pushed and not before they are due, inputs only when
they are asked for and at most one of them in a call of `Tick`. -/
theorem commands_in_order (events : List QueueEvent) : CommandsInOrder game (events.foldl (queueStep game) .init) := by
  have hnone : ∀ e, e ∉ BattleCommandQueue.init.executed := fun _ => not_mem_nil
  have hinit : QueueKept game .init := ⟨⟨rfl, rfl, fun e he => absurd he (hnone e), .nil, fun e he => absurd he (hnone e), .nil⟩,
    le_rfl, nofun, fun e he => absurd he (hnone e), nofun⟩
  exact (hinit.run events).toCommandsInOrder

end CServer.Fight
