import CServer.Lib.Memory
import CServer.Lib.Exec

/-! # `fight/utils/Pipe.lua` and `Queue.lua`: values passed between coroutines

`Push` hands a value to the coroutine that has waited longest, and resumes it within the call; `Pop` takes a value that was
queued, or waits. What is resumed runs on top of its resumer until it waits or ends, so that calls nest: `frames` are
the coroutines that have been resumed and have not come back, the running one first, and each step is one call of it.
`Close` is a loop that goes on whenever the coroutine it resumed comes back.
-/
namespace CServer.Fight
open CServer.Lib Function List Option

/-! ## Queues -/

/-- `QueueClass`; the fields between `head` and `tail` are filled. -/
structure LuaQueue (β : Type) where
  head : ℕ
  tail : ℕ
  content : ℕ → Option β
  le : head ≤ tail
  filled : ∀ i, head ≤ i → i < tail → (content i).isSome = true

namespace LuaQueue
variable {β : Type}

def emptied (content : ℕ → Option β) : LuaQueue β :=
  ⟨1, 1, content, le_rfl, fun _ hlo hhi => absurd hhi (not_lt.mpr hlo)⟩

def new : LuaQueue β := emptied fun _ => none

variable (q : LuaQueue β)

def push (value : β) : LuaQueue β where
  head := q.head
  tail := q.tail + 1
  content := update q.content q.tail (some value)
  le := q.le.trans (Nat.le_succ _)
  filled := by
    intro i hlo hhi
    by_cases hi : i = q.tail
    · rw [hi, update_self, isSome_some]
    · rw [update_of_ne hi]
      exact q.filled i hlo (by omega)

def tailQueue (h : q.head < q.tail) : LuaQueue β where
  head := q.head + 1
  tail := q.tail
  content := update q.content q.head none
  le := h
  filled := by
    intro i hlo hhi
    rw [update_of_ne (by omega)]
    exact q.filled i (by omega) hhi

def pop : Option (β × LuaQueue β) :=
  if h : q.head < q.tail then
    let rest := q.tailQueue h
    some ((q.content q.head).get (q.filled _ le_rfl h), if rest.head = rest.tail then emptied rest.content else rest)
  else none

def toList : List β := (List.range' q.head (q.tail - q.head)).filterMap q.content

@[simp] theorem toList_new : (new : LuaQueue β).toList = [] := rfl

theorem toList_push (value : β) : (q.push value).toList = q.toList ++ [value] := by
  have hle := q.le
  have hlength : q.tail + 1 - q.head = q.tail - q.head + 1 := by omega
  have hlast : q.head + 1 * (q.tail - q.head) = q.tail := by omega
  have hold : (List.range' q.head (q.tail - q.head)).filterMap (update q.content q.tail (some value)) = q.toList := by
    refine filterMap_congr fun i hi => update_of_ne ?_ _ _
    have hrange := mem_range'_1.mp hi
    omega
  rw [toList, push]
  simp only
  rw [hlength, range'_concat, hlast, filterMap_append, hold, filterMap_cons, update_self]
  rfl

theorem pop_nil {q : LuaQueue β} (h : q.toList = []) : q.pop = none := by
  unfold pop
  split
  · rename_i hlt
    exfalso
    obtain ⟨value, hvalue⟩ := isSome_iff_exists.mp (q.filled _ le_rfl hlt)
    have hmem : value ∈ q.toList := mem_filterMap.mpr ⟨q.head, mem_range'_1.mpr ⟨le_rfl, by omega⟩, hvalue⟩
    rw [h] at hmem
    exact nomatch hmem
  · rfl

theorem pop_cons {q : LuaQueue β} {value : β} {l : List β} (h : q.toList = value :: l) :
    ∃ rest, q.pop = some (value, rest) ∧ rest.toList = l := by
  have hlt : q.head < q.tail := by
    by_contra hnot
    have hzero : q.tail - q.head = 0 := by omega
    rw [toList, hzero] at h
    exact nomatch h
  obtain ⟨first, hfirst⟩ := isSome_iff_exists.mp (q.filled _ le_rfl hlt)
  have hlength : q.tail - q.head = q.tail - (q.head + 1) + 1 := by omega
  have hsplit : q.toList = first :: (List.range' (q.head + 1) (q.tail - (q.head + 1))).filterMap q.content := by
    rw [toList, hlength, range'_succ, filterMap_cons, hfirst]
  obtain ⟨rfl, hrest⟩ := cons.inj (hsplit.symm.trans h)
  have hkept : (q.tailQueue hlt).toList = l := by
    rw [← hrest]
    refine filterMap_congr fun i hi => update_of_ne ?_ _ _
    have hlo : q.head + 1 ≤ i := (mem_range'_1.mp hi).1
    omega
  refine ⟨if (q.tailQueue hlt).head = (q.tailQueue hlt).tail then emptied (q.tailQueue hlt).content else q.tailQueue hlt,
    ?_, ?_⟩
  · rw [pop, dif_pos hlt]
    simp only [hfirst, get_some]
  · split
    · rename_i hend
      have hzero : (q.tailQueue hlt).tail - (q.tailQueue hlt).head = 0 := by omega
      rw [toList, hzero] at hkept
      rw [← hkept]
      rfl
    · exact hkept

end LuaQueue

/-! ## The pipe -/

variable {α : Type}

structure Pipe (α : Type) where
  queue : LuaQueue α
  waiting : LuaQueue ℕ

/-- A coroutine that was resumed and has not come back, or none for the main program; `closing` says that it is in the loop
of `Close`. -/
structure PipeFrame where
  co : Option ℕ
  closing : Bool

/-- A closed pipe has no queues. `pushed` are the values of the calls of `Push` before that, `handed` those that a `Pop` has
returned, `began` the coroutines that have begun to wait, `resumed` those resumed with what they were given; `due` is, for
each call of `Close`, what was resumed before it and who waited then, and `rounds` how often a `Close` has looked for one. -/
structure PipeState (α : Type) where
  pipe : Option (Pipe α)
  frames : List PipeFrame
  next : ℕ
  pushed : List α
  handed : List (Option ℕ × α)
  began : List ℕ
  resumed : List (ℕ × Option α)
  due : List (List (ℕ × Option α) × List ℕ)
  rounds : ℕ

def pipeNew : PipeState α := ⟨some ⟨.new, .new⟩, [⟨none, false⟩], 0, [], [], [], [], [], 0⟩

/-- The calls of the running coroutine; it may also start another one, and it ends. -/
inductive PipeCall (α : Type)
  | push (value : α)
  | pop
  | close
  | start
  | finish

namespace PipeState

variable (s : PipeState α)

def running : Option ℕ := s.frames.head?.bind PipeFrame.co

def resume (co : ℕ) (value : Option α) : PipeState α :=
  { s with
    frames := ⟨some co, false⟩ :: s.frames
    resumed := s.resumed ++ [(co, value)]
    handed := s.handed ++ value.toList.map fun v => (some co, v) }

def closeLoop : Except Fault (PipeState α) :=
  match s.frames with
  | ⟨co, true⟩ :: below =>
    match s.pipe with
    | none => .error .outOfBounds
    | some p =>
      let s := { s with rounds := s.rounds + 1 }
      match p.waiting.pop with
      | none => .ok { s with pipe := none, frames := ⟨co, false⟩ :: below }
      | some (next, waiting) => .ok (resume { s with pipe := some { p with waiting := waiting } } next none)
  | _ => .ok s

def push (s : PipeState α) (value : α) : PipeState α :=
  match s.pipe with
  | none => s
  | some p =>
    let s := { s with pushed := s.pushed ++ [value] }
    match p.waiting.pop with
    | some (co, waiting) => resume { s with pipe := some { p with waiting := waiting } } co (some value)
    | none => { s with pipe := some { p with queue := p.queue.push value } }

/-- `Pipe:Pop`; the main program cannot wait. -/
def pop (s : PipeState α) : Except Fault (PipeState α) :=
  match s.pipe with
  | none => .ok s
  | some p =>
    match p.queue.pop with
    | some (value, queue) =>
      .ok { s with pipe := some { p with queue := queue }, handed := s.handed ++ [(s.running, value)] }
    | none =>
      match s.frames with
      | ⟨some co, _⟩ :: below =>
        closeLoop
          { s with
            pipe := some { p with waiting := p.waiting.push co }
            began := s.began ++ [co]
            frames := below }
      | _ => .ok s

/-- `Pipe:Close`; it asks `waiting` of a closed pipe. -/
def close : Except Fault (PipeState α) :=
  match s.pipe, s.frames with
  | some p, ⟨co, _⟩ :: below =>
    closeLoop { s with frames := ⟨co, true⟩ :: below, due := s.due ++ [(s.resumed, p.waiting.toList)] }
  | _, _ => .error .outOfBounds

def start : PipeState α := { s with frames := ⟨some s.next, false⟩ :: s.frames, next := s.next + 1 }

def finish : Except Fault (PipeState α) :=
  match s.frames with
  | ⟨some _, _⟩ :: below => closeLoop { s with frames := below }
  | _ => .ok s

end PipeState

def pipeStep (s : PipeState α) : PipeCall α → Except Fault (PipeState α)
  | .push value => .ok (s.push value)
  | .pop => s.pop
  | .close => s.close
  | .start => .ok s.start
  | .finish => s.finish

namespace PipeState

variable (s : PipeState α)

def queued : List α := (s.pipe.map fun p => p.queue.toList).getD []

def waits : List ℕ := (s.pipe.map fun p => p.waiting.toList).getD []

def active : List ℕ := s.frames.filterMap PipeFrame.co

/-- Each value pushed is handed to one `Pop`, in the order of the calls of `Push`, or is still queued (a closed pipe drops
these). Those that wait are resumed in the order in which they began to, none runs or waits twice, and nothing is queued
while one waits. A `Close` resumes, once and with nothing, only those that waited when it was called; its loop goes round
once for each of them and once more to end, and then it has resumed them all. -/
structure Delivers (s : PipeState α) : Prop where
  handed : ∃ rest, s.pushed = s.handed.map Prod.snd ++ rest ∧ (s.pipe.isSome = true → rest = s.queued)
  order : s.began = s.resumed.map Prod.fst ++ s.waits
  suspended : (s.waits ++ s.active).Nodup
  apart : s.queued = [] ∨ s.waits = []
  closing : ∀ d ∈ s.due, s.resumed <+: d.1 ++ d.2.map fun co => (co, none)
  rounds : ∀ d ∈ s.due, s.rounds ≤ d.2.length + 1
  closed : s.pipe = none → ∃ d, s.due = [d] ∧ s.resumed = d.1 ++ d.2.map fun co => (co, none)

def Closing : Prop := ∃ f ∈ s.frames, f.closing = true

/-- Nobody waits anew while a `Close` is in progress, or takes another that waits from it, and only an open pipe is closed,
once. -/
def Undisturbed : PipeCall α → Prop
  | .push _ => s.Closing → s.waits = []
  | .pop => s.Closing → s.pipe.isSome = true → s.running.isSome = true → s.queued ≠ []
  | .close => s.pipe.isSome = true ∧ ¬ s.Closing
  | _ => True

end PipeState

/-! ## The invariant -/

namespace PipeState
variable {s : PipeState α} {co : ℕ} {value : Option α}

/-- `due` at the three stages of a pipe: before `Close`, in its loop, and after it. -/
inductive Stage (s : PipeState α) : Prop
  | opened (hpipe : s.pipe.isSome = true) (hclosing : ¬ s.Closing) (hdue : s.due = []) (hrounds : s.rounds = 0)
  | closing (hpipe : s.pipe.isSome = true) (hclosing : s.Closing) (d : List (ℕ × Option α) × List ℕ) (hdue : s.due = [d])
      (hresumed : s.resumed ++ s.waits.map (fun co => (co, none)) = d.1 ++ d.2.map fun co => (co, none))
      (hrounds : s.rounds + s.waits.length = d.2.length)
  | closed (hpipe : s.pipe = none) (hclosing : ¬ s.Closing) (d : List (ℕ × Option α) × List ℕ) (hdue : s.due = [d])
      (hresumed : s.resumed = d.1 ++ d.2.map fun co => (co, none)) (hrounds : s.rounds = d.2.length + 1)

structure Running (s : PipeState α) : Prop where
  handed : ∃ rest, s.pushed = s.handed.map Prod.snd ++ rest ∧ (s.pipe.isSome = true → rest = s.queued)
  order : s.began = s.resumed.map Prod.fst ++ s.waits
  suspended : (s.waits ++ s.active).Nodup
  apart : s.queued = [] ∨ s.waits = []
  fresh : ∀ co ∈ s.waits ++ s.active, co < s.next
  main : ∃ f ∈ s.frames, f.co = none
  once : s.frames.countP PipeFrame.closing ≤ 1
  stage : Stage s

/-- What holds between the calls: a coroutine in the loop of `Close` does not run. -/
structure Kept (s : PipeState α) : Prop extends Running s where
  top : ∃ f below, s.frames = f :: below ∧ f.closing = false

theorem Stage.frames {frames : List PipeFrame} {next : ℕ} (h : s.Stage)
    (hsame : Closing { s with frames := frames, next := next } ↔ s.Closing) :
    Stage { s with frames := frames, next := next } := by
  cases h with
  | opened hpipe hclosing hdue hrounds => exact .opened hpipe (hsame.not.mpr hclosing) hdue hrounds
  | closing hpipe hclosing d hdue hresumed hrounds => exact .closing hpipe (hsame.mpr hclosing) d hdue hresumed hrounds
  | closed hpipe hclosing d hdue hresumed hrounds => exact .closed hpipe (hsame.not.mpr hclosing) d hdue hresumed hrounds

theorem Running.below {below : List PipeFrame} {closing : Bool} (h : s.Running)
    (hframes : s.frames = ⟨some co, closing⟩ :: below) :
    (∃ f ∈ below, f.co = none) ∧ below.countP PipeFrame.closing ≤ 1 := by
  obtain ⟨f, hf, hmain⟩ := h.main
  have honce := h.once
  rw [hframes] at hf
  rw [hframes, countP_cons] at honce
  rcases mem_cons.mp hf with rfl | hf
  · exact nomatch hmain
  · exact ⟨⟨f, hf, hmain⟩, (Nat.le_add_right _ _).trans honce⟩

theorem Running.main_top {co : Option ℕ} {below : List PipeFrame} {closing : Bool} (h : s.Running)
    (hframes : s.frames = ⟨co, closing⟩ :: below) (closing' : Bool) :
    ∃ f ∈ (⟨co, closing'⟩ :: below : List PipeFrame), f.co = none := by
  obtain ⟨f, hf, hmain⟩ := h.main
  rw [hframes] at hf
  rcases mem_cons.mp hf with rfl | hf
  · exact ⟨_, mem_cons_self, hmain⟩
  · exact ⟨f, mem_cons_of_mem _ hf, hmain⟩

theorem kept_new : (pipeNew : PipeState α).Kept where
  handed := ⟨[], rfl, fun _ => rfl⟩
  order := rfl
  suspended := nodup_nil
  apart := .inl rfl
  fresh := nofun
  main := ⟨_, mem_singleton_self _, rfl⟩
  once := Nat.zero_le _
  stage := .opened rfl (by simp [Closing, pipeNew]) rfl rfl
  top := ⟨_, _, rfl, rfl⟩

theorem Running.delivers (h : s.Running) : s.Delivers := by
  refine ⟨h.handed, h.order, h.suspended, h.apart, ?_, ?_, ?_⟩
  · cases h.stage with
    | opened hpipe hclosing hdue hrounds =>
      rw [hdue]
      exact nofun
    | closing hpipe hclosing d hdue hresumed hrounds =>
      rw [hdue]
      intro e he
      rw [mem_singleton.mp he, ← hresumed]
      exact prefix_append _ _
    | closed hpipe hclosing d hdue hresumed hrounds =>
      rw [hdue]
      intro e he
      rw [mem_singleton.mp he, ← hresumed]
  · cases h.stage with
    | opened hpipe hclosing hdue hrounds =>
      rw [hdue]
      exact nofun
    | closing hpipe hclosing d hdue hresumed hrounds =>
      rw [hdue]
      intro e he
      rw [mem_singleton.mp he]
      omega
    | closed hpipe hclosing d hdue hresumed hrounds =>
      rw [hdue]
      intro e he
      rw [mem_singleton.mp he]
      omega
  · intro hnone
    cases h.stage with
    | opened hpipe hclosing hdue hrounds => exact nomatch hnone ▸ hpipe
    | closing hpipe hclosing d hdue hresumed hrounds => exact nomatch hnone ▸ hpipe
    | closed hpipe hclosing d hdue hresumed hrounds => exact ⟨d, hdue, hresumed⟩

theorem waits_some {p : Pipe α} (hp : s.pipe = some p) : s.waits = p.waiting.toList := by
  rw [waits, hp]
  rfl

theorem queued_some {p : Pipe α} (hp : s.pipe = some p) : s.queued = p.queue.toList := by
  rw [queued, hp]
  rfl

theorem Running.resume {p : Pipe α} {waiting : LuaQueue ℕ} {pushed : List α} {rounds : ℕ} (h : s.Running)
    (hp : s.pipe = some p) (hwaits : p.waiting.toList = co :: waiting.toList) (hpushed : pushed = s.pushed ++ value.toList)
    (hopen : ¬ s.Closing → rounds = s.rounds) (hclose : s.Closing → value = none ∧ rounds = s.rounds + 1) :
    (PipeState.resume { s with
      pipe := some { p with waiting := waiting }, pushed := pushed, rounds := rounds } co value).Kept := by
  have hw : s.waits = co :: waiting.toList := (waits_some hp).trans hwaits
  have hqueue : p.queue.toList = [] := by
    rw [← queued_some hp]
    exact h.apart.resolve_right (by rw [hw]; exact nofun)
  have hperm : (s.waits ++ s.active).Perm (waiting.toList ++ co :: s.active) := by
    rw [hw, cons_append]
    exact perm_middle.symm
  obtain ⟨rest, hhanded, hrest⟩ := h.handed
  obtain rfl : rest = [] := by rw [hrest (by rw [hp]; rfl), queued_some hp, hqueue]
  refine ⟨⟨⟨[], ?_, fun _ => ?_⟩, ?_, ?_, .inl hqueue, ?_, ?_, ?_, ?_⟩, ⟨_, _, rfl, rfl⟩⟩
  · simp [PipeState.resume, hpushed, hhanded, comp_def]
  · exact hqueue.symm
  · simp only [PipeState.resume, waits, map_some, getD_some]
    rw [h.order, hw, map_append, append_assoc]
    rfl
  · exact hperm.nodup_iff.mp h.suspended
  · exact fun j hj => h.fresh j (hperm.mem_iff.mpr hj)
  · obtain ⟨f, hf, hmain⟩ := h.main
    exact ⟨f, mem_cons_of_mem _ hf, hmain⟩
  · exact h.once
  · have hsame : Closing (PipeState.resume { s with
        pipe := some { p with waiting := waiting }, pushed := pushed, rounds := rounds } co value) ↔ s.Closing := by
      simp [Closing, PipeState.resume]
    cases h.stage with
    | opened hpipe hclosing hdue hrounds =>
      exact .opened rfl (hsame.not.mpr hclosing) hdue ((hopen hclosing).trans hrounds)
    | closing hpipe hclosing d hdue hresumed hrounds =>
      obtain ⟨rfl, rfl⟩ := hclose hclosing
      rw [hw, map_cons] at hresumed
      rw [hw, length_cons] at hrounds
      refine .closing rfl (hsame.mpr hclosing) d hdue ?_ ?_
      · rw [← hresumed]
        simp only [PipeState.resume, waits, map_some, getD_some]
        rw [append_assoc]
        rfl
      · change s.rounds + 1 + waiting.toList.length = d.2.length
        omega
    | closed hpipe hclosing d hdue hresumed hrounds => exact nomatch hp.symm.trans hpipe

theorem Running.closed {co : Option ℕ} {below : List PipeFrame} {d : List (ℕ × Option α) × List ℕ} (h : s.Running)
    (hframes : s.frames = ⟨co, true⟩ :: below) (hwaits : s.waits = []) (hdue : s.due = [d])
    (hresumed : s.resumed ++ s.waits.map (fun co => (co, none)) = d.1 ++ d.2.map fun co => (co, none))
    (hrounds : s.rounds + s.waits.length = d.2.length) :
    Kept { s with pipe := none, frames := ⟨co, false⟩ :: below, rounds := s.rounds + 1 } := by
  obtain ⟨rest, hhanded, -⟩ := h.handed
  have hactive : active { s with pipe := none, frames := ⟨co, false⟩ :: below, rounds := s.rounds + 1 } = s.active := by
    rw [active, active, hframes, filterMap_cons, filterMap_cons]
  have honce := h.once
  rw [hframes, countP_cons_of_pos rfl] at honce
  have hbelow : ∀ f ∈ below, f.closing = false := by
    intro f hf
    have hzero : below.countP PipeFrame.closing = 0 := by omega
    simpa using countP_eq_zero.mp hzero f hf
  refine ⟨⟨⟨rest, hhanded, nofun⟩, ?_, ?_, .inl rfl, ?_, ?_, ?_, ?_⟩, ⟨_, _, rfl, rfl⟩⟩
  · have horder := h.order
    rw [hwaits] at horder
    exact horder
  · rw [hactive]
    have hnodup := h.suspended
    rw [hwaits] at hnodup
    exact hnodup
  · rw [hactive]
    intro j hj
    refine h.fresh j ?_
    rw [hwaits]
    exact hj
  · exact h.main_top hframes _
  · change List.countP _ (_ :: below) ≤ 1
    rw [countP_cons_of_neg (by simp)]
    omega
  · rw [hwaits, map_nil, append_nil] at hresumed
    rw [hwaits, length_nil, Nat.add_zero] at hrounds
    refine .closed rfl ?_ d hdue hresumed (by rw [hrounds])
    · rintro ⟨f, hf, hclosing⟩
      rcases mem_cons.mp hf with rfl | hf
      · exact nomatch hclosing
      · exact nomatch (hbelow f hf).symm.trans hclosing

theorem Running.closeLoop (h : s.Running) : ∃ s', s.closeLoop = .ok s' ∧ s'.Kept := by
  unfold PipeState.closeLoop
  split
  · rename_i co below hframes
    have hclosing : s.Closing := ⟨⟨co, true⟩, hframes ▸ mem_cons_self, rfl⟩
    cases h.stage with
    | opened hpipe hno hdue hrounds => exact absurd hclosing hno
    | closed hpipe hno d hdue hresumed hrounds => exact absurd hclosing hno
    | closing hpipe _ d hdue hresumed hrounds =>
      obtain ⟨p, hp⟩ := isSome_iff_exists.mp hpipe
      have hw := waits_some hp
      rw [hp]
      simp only
      cases hwaits : p.waiting.toList with
      | nil =>
        rw [LuaQueue.pop_nil hwaits]
        rw [hwaits] at hw
        exact ⟨_, rfl, h.closed hframes hw hdue hresumed hrounds⟩
      | cons next rest =>
        obtain ⟨waiting, hpop, rfl⟩ := LuaQueue.pop_cons hwaits
        rw [hpop]
        refine ⟨_, rfl, ?_⟩
        exact h.resume hp hwaits (append_nil _).symm (absurd hclosing) fun _ => ⟨rfl, rfl⟩
  · rename_i hnot
    refine ⟨s, rfl, h, ?_⟩
    obtain ⟨f, hf, -⟩ := h.main
    cases hframes : s.frames with
    | nil => exact nomatch hframes ▸ hf
    | cons f below =>
      refine ⟨f, below, rfl, Bool.eq_false_iff.mpr fun hclosing => hnot f.co below ?_⟩
      rw [hframes, ← hclosing]

/-! ## The calls -/

theorem Kept.queue {p : Pipe α} {queue : LuaQueue α} {pushed : List α} {handed : List (Option ℕ × α)} (h : s.Kept)
    (hp : s.pipe = some p) (hsplit : pushed = handed.map Prod.snd ++ queue.toList) (hwaits : p.waiting.toList = []) :
    Kept { s with pipe := some { p with queue := queue }, pushed := pushed, handed := handed } := by
  obtain ⟨pipe, frames, next, _, _, began, resumed, due, rounds⟩ := s
  obtain rfl : pipe = some p := hp
  refine ⟨⟨⟨queue.toList, hsplit, fun _ => rfl⟩, h.order, h.suspended, .inr hwaits, h.fresh, h.main, h.once, ?_⟩, h.top⟩
  cases h.stage with
  | opened hpipe hclosing hdue hrounds => exact .opened rfl hclosing hdue hrounds
  | closing hpipe hclosing d hdue hresumed hrounds => exact .closing rfl hclosing d hdue hresumed hrounds
  | closed hpipe hclosing d hdue hresumed hrounds => exact nomatch hpipe

theorem Kept.push (h : s.Kept) {value : α} (hundisturbed : s.Closing → s.waits = []) : (s.push value).Kept := by
  unfold PipeState.push
  split
  · exact h
  · rename_i p hp
    have hw := waits_some hp
    simp only
    cases hwaits : p.waiting.toList with
    | nil =>
      rw [LuaQueue.pop_nil hwaits]
      obtain ⟨rest, hhanded, hrest⟩ := h.handed
      obtain rfl := hrest (by rw [hp]; rfl)
      refine h.queue hp ?_ hwaits
      rw [hhanded, queued_some hp, LuaQueue.toList_push, append_assoc]
    | cons co rest =>
      obtain ⟨waiting, hpop, rfl⟩ := LuaQueue.pop_cons hwaits
      rw [hpop]
      refine h.resume hp hwaits rfl (fun _ => rfl) fun hclosing => ?_
      have hnone := hundisturbed hclosing
      rw [hw, hwaits] at hnone
      exact nomatch hnone

theorem Kept.pop_queued {p : Pipe α} {value : α} {queue : LuaQueue α} (h : s.Kept) (hp : s.pipe = some p)
    (hqueue : p.queue.toList = value :: queue.toList) (co : Option ℕ) :
    Kept { s with pipe := some { p with queue := queue }, handed := s.handed ++ [(co, value)] } := by
  have hq : s.queued = value :: queue.toList := (queued_some hp).trans hqueue
  obtain ⟨rest, hhanded, hrest⟩ := h.handed
  obtain rfl := hrest (by rw [hp]; rfl)
  refine h.queue hp ?_ ?_
  · rw [hhanded, hq, map_append, append_assoc]
    rfl
  · rw [← waits_some hp]
    exact h.apart.resolve_left (by rw [hq]; exact nofun)

theorem Kept.wait {p : Pipe α} {below : List PipeFrame} {closing : Bool} (h : s.Kept) (hp : s.pipe = some p)
    (hframes : s.frames = ⟨some co, closing⟩ :: below) (hqueue : p.queue.toList = []) (hno : ¬ s.Closing) :
    Running
      { s with
        pipe := some { p with waiting := p.waiting.push co }
        began := s.began ++ [co]
        frames := below } := by
  have hw := waits_some hp
  have hpush := LuaQueue.toList_push p.waiting co
  have hactive : s.active = co :: below.filterMap PipeFrame.co := by rw [active, hframes]; rfl
  have hperm : (s.waits ++ s.active).Perm ((p.waiting.push co).toList ++ below.filterMap PipeFrame.co) := by
    rw [hw, hactive, hpush, append_assoc]
    rfl
  obtain ⟨rest, hhanded, hrest⟩ := h.handed
  obtain rfl := hrest (by rw [hp]; rfl)
  refine ⟨⟨s.queued, hhanded, fun _ => (queued_some hp).trans rfl⟩, ?_, hperm.nodup_iff.mp h.suspended, .inl hqueue, ?_, ?_, ?_, ?_⟩
  · change s.began ++ [co] = _ ++ (p.waiting.push co).toList
    rw [h.order, hw, hpush, append_assoc]
  · exact fun j hj => h.fresh j (hperm.mem_iff.mpr hj)
  · exact (h.below hframes).1
  · exact (h.below hframes).2
  · cases h.stage with
    | opened hpipe hclosing hdue hrounds =>
      exact .opened rfl (fun ⟨f, hf, hc⟩ => hno ⟨f, hframes ▸ mem_cons_of_mem _ hf, hc⟩) hdue hrounds
    | closing hpipe hclosing d hdue hresumed hrounds => exact absurd hclosing hno
    | closed hpipe hclosing d hdue hresumed hrounds => exact nomatch hp.symm.trans hpipe

theorem Kept.pop (h : s.Kept) (hundisturbed : s.Undisturbed .pop) : ∃ s', s.pop = .ok s' ∧ s'.Kept := by
  unfold PipeState.pop
  split
  · exact ⟨s, rfl, h⟩
  · rename_i p hp
    cases hqueue : p.queue.toList with
    | cons value rest =>
      obtain ⟨queue, hpop, rfl⟩ := LuaQueue.pop_cons hqueue
      rw [hpop]
      exact ⟨_, rfl, h.pop_queued hp hqueue _⟩
    | nil =>
      rw [LuaQueue.pop_nil hqueue]
      simp only
      split
      · rename_i co closing below hframes
        have hno : ¬ s.Closing := by
          intro hclosing
          refine hundisturbed hclosing (by rw [hp]; rfl) (by rw [running, hframes]; rfl) ?_
          rw [queued_some hp]
          exact hqueue
        exact (h.wait hp hframes hqueue hno).closeLoop
      · exact ⟨s, rfl, h⟩

theorem Kept.start (h : s.Kept) : s.start.Kept := by
  have hperm : (s.waits ++ s.next :: s.active).Perm (s.next :: (s.waits ++ s.active)) := perm_middle
  have hnew : s.next ∉ s.waits ++ s.active := fun hin => lt_irrefl _ (h.fresh _ hin)
  refine ⟨⟨h.handed, h.order, hperm.nodup_iff.mpr (nodup_cons.mpr ⟨hnew, h.suspended⟩), h.apart, ?_, ?_, h.once, ?_⟩,
    ⟨_, _, rfl, rfl⟩⟩
  · intro co hco
    rcases mem_cons.mp (hperm.mem_iff.mp hco) with rfl | hco
    · exact Nat.lt_succ_self _
    · exact (h.fresh co hco).trans (Nat.lt_succ_self _)
  · obtain ⟨f, hf, hmain⟩ := h.main
    exact ⟨f, mem_cons_of_mem _ hf, hmain⟩
  · have hsame : s.start.Closing ↔ s.Closing := by simp [Closing, PipeState.start]
    exact h.stage.frames hsame

theorem Kept.ends {below : List PipeFrame} {closing : Bool} (h : s.Kept)
    (hframes : s.frames = ⟨some co, closing⟩ :: below) : Running { s with frames := below } := by
  have hactive : s.active = co :: below.filterMap PipeFrame.co := by rw [active, hframes]; rfl
  have hsub : (s.waits ++ below.filterMap PipeFrame.co).Sublist (s.waits ++ s.active) := by
    rw [hactive]
    exact (sublist_cons_self co _).append_left _
  obtain ⟨f, rest, htop, hf⟩ := h.top
  obtain ⟨rfl, rfl⟩ := cons.inj (htop.symm.trans hframes)
  have hsame : Closing { s with frames := rest } ↔ s.Closing := by
    obtain rfl : closing = false := hf
    simp [Closing, hframes]
  refine ⟨h.handed, h.order, h.suspended.sublist hsub, h.apart, fun j hj => h.fresh j (hsub.subset hj), ?_, ?_, ?_⟩
  · exact (h.below hframes).1
  · exact (h.below hframes).2
  · exact h.stage.frames hsame

theorem Kept.finish (h : s.Kept) : ∃ s', s.finish = .ok s' ∧ s'.Kept := by
  unfold PipeState.finish
  split
  · rename_i hframes
    exact (h.ends hframes).closeLoop
  · exact ⟨s, rfl, h⟩

theorem Kept.closes {co : Option ℕ} {below : List PipeFrame} (h : s.Kept) (hopen : s.pipe.isSome = true) (hno : ¬ s.Closing)
    (hframes : s.frames = ⟨co, false⟩ :: below) :
    Running { s with frames := ⟨co, true⟩ :: below, due := s.due ++ [(s.resumed, s.waits)] } := by
  have hnone : ∀ f ∈ below, ¬ f.closing = true := fun f hf hc => hno ⟨f, hframes ▸ mem_cons_of_mem _ hf, hc⟩
  obtain ⟨hdue, hrounds⟩ : s.due = [] ∧ s.rounds = 0 := by
    cases h.stage with
    | opened hpipe hclosing hdue hrounds => exact ⟨hdue, hrounds⟩
    | closing hpipe hclosing d hdue hresumed hrounds => exact absurd hclosing hno
    | closed hpipe hclosing d hdue hresumed hrounds =>
      rw [hpipe] at hopen
      exact nomatch hopen
  have hactive : List.filterMap PipeFrame.co (⟨co, true⟩ :: below) = s.active := by
    rw [active, hframes, filterMap_cons, filterMap_cons]
  refine ⟨h.handed, h.order, ?_, h.apart, ?_, ?_, ?_,
    .closing hopen ⟨_, mem_cons_self, rfl⟩ (s.resumed, s.waits) ?_ rfl ?_⟩
  · rw [active, hactive]
    exact h.suspended
  · rw [active, hactive]
    exact h.fresh
  · exact h.main_top hframes _
  · change List.countP _ (_ :: below) ≤ 1
    rw [countP_cons_of_pos rfl, countP_eq_zero.mpr hnone]
  · change s.due ++ [_] = [_]
    rw [hdue]
    rfl
  · change s.rounds + s.waits.length = s.waits.length
    rw [hrounds, Nat.zero_add]

theorem Kept.close (h : s.Kept) (hundisturbed : s.Undisturbed .close) : ∃ s', s.close = .ok s' ∧ s'.Kept := by
  obtain ⟨p, hp⟩ := isSome_iff_exists.mp hundisturbed.1
  obtain ⟨⟨co, closing⟩, below, hframes, rfl⟩ := h.top
  have hcode : s.close =
      closeLoop { s with frames := ⟨co, true⟩ :: below, due := s.due ++ [(s.resumed, s.waits)] } := by
    rw [PipeState.close, waits_some hp]
    split
    · rename_i p' co' closing' below' hp' hframes'
      obtain rfl := some_unique hp hp'
      obtain ⟨hf, rfl⟩ := cons.inj (hframes.symm.trans hframes')
      obtain ⟨rfl, -⟩ := PipeFrame.mk.inj hf
      rfl
    · rename_i hnot
      exact (hnot p co false below hp hframes).elim
  rw [hcode]
  exact (h.closes hundisturbed.1 hundisturbed.2 hframes).closeLoop

theorem Kept.step (h : s.Kept) {c : PipeCall α} (hc : s.Undisturbed c) : ∃ s', pipeStep s c = .ok s' ∧ s'.Kept := by
  cases c with
  | push value => exact ⟨_, rfl, h.push hc⟩
  | pop => exact h.pop hc
  | close => exact h.close hc
  | start => exact ⟨_, rfl, h.start⟩
  | finish => exact h.finish

end PipeState

/-! ## Runs -/

/-- No call faults, and the pipe delivers in every state, if nothing disturbs a `Close` in progress. -/
theorem pipeDelivery (calls : List (PipeCall α)) (hcalls : Along pipeStep PipeState.Undisturbed pipeNew calls) :
    (∃ s, run pipeStep pipeNew calls = .ok s) ∧ Throughout pipeStep PipeState.Delivers pipeNew calls := by
  have hstep : ∀ (s : PipeState α) c s', s.Kept → s.Undisturbed c → pipeStep s c = .ok s' → s'.Kept := by
    intro s c s' h hc hs
    obtain ⟨s₁, hs₁, h'⟩ := h.step hc
    obtain rfl := ok_unique hs hs₁
    exact h'
  obtain ⟨s, hrun, -⟩ := run_ok (fun s c (h : PipeState.Kept s) hc => h.step hc) calls pipeNew PipeState.kept_new hcalls
  exact ⟨⟨s, hrun⟩, run_throughout (fun _ h => h.delivers) hstep calls _ PipeState.kept_new hcalls⟩

instance (s : PipeState α) : Decidable s.Closing := inferInstanceAs (Decidable (∃ f ∈ s.frames, f.closing = true))

instance [DecidableEq α] (s : PipeState α) : (c : PipeCall α) → Decidable (s.Undisturbed c)
  | .push _ => inferInstanceAs (Decidable (s.Closing → s.waits = []))
  | .pop => inferInstanceAs (Decidable (s.Closing → s.pipe.isSome = true → s.running.isSome = true → s.queued ≠ []))
  | .close => inferInstanceAs (Decidable (s.pipe.isSome = true ∧ ¬ s.Closing))
  | .start => .isTrue trivial
  | .finish => .isTrue trivial

/-- Two consumers wait; the first is handed a value, pushes one to the second, which waits again, and waits itself; both end
when the pipe is closed. -/
def twoConsumers : List (PipeCall ℕ) :=
  [.start, .pop, .start, .pop, .push 7, .push 8, .pop, .pop, .close, .finish, .finish]

theorem pipeDelivery_two : (∃ s, run pipeStep pipeNew twoConsumers = .ok s) ∧
    Throughout pipeStep PipeState.Delivers pipeNew twoConsumers :=
  pipeDelivery twoConsumers (by decide +kernel)

/-- A consumer that a `Close` resumed has begun to wait again. -/
structure PipeState.Loops (s : PipeState α) : Prop where
  pipe : ∃ p, s.pipe = some p ∧ p.queue.toList = [] ∧ p.waiting.toList = []
  frames : s.frames = [⟨some 0, false⟩, ⟨none, true⟩]

theorem PipeState.Loops.pop {s : PipeState α} (h : s.Loops) : ∃ s', pipeStep s .pop = .ok s' ∧ s'.Loops := by
  obtain ⟨p, hp, hqueue, hwaiting⟩ := h.pipe
  have hpush := LuaQueue.toList_push p.waiting 0
  rw [hwaiting, nil_append] at hpush
  obtain ⟨waiting, hpop, hnil⟩ := LuaQueue.pop_cons hpush
  have hcode : pipeStep s .pop = .ok (PipeState.resume
      { s with
        pipe := some { p with waiting := waiting }
        began := s.began ++ [0]
        frames := [⟨none, true⟩]
        rounds := s.rounds + 1 } 0 none) := by
    simp only [pipeStep, PipeState.pop, PipeState.closeLoop, hp, h.frames, LuaQueue.pop_nil hqueue, hpop]
  exact ⟨_, hcode, ⟨_, rfl, hqueue, hnil⟩, rfl⟩

theorem PipeState.Loops.replicate {s : PipeState α} (h : s.Loops) (n : ℕ) :
    ∃ s', run pipeStep s (List.replicate n .pop) = .ok s' ∧ s'.Loops := by
  induction n generalizing s with
  | zero => exact ⟨s, rfl, h⟩
  | succ n ih =>
    obtain ⟨s₁, hs₁, h₁⟩ := h.pop
    obtain ⟨s', hrun, h'⟩ := ih h₁
    refine ⟨s', ?_, h'⟩
    rw [replicate_succ, run, hs₁]
    exact hrun

/-- A consumer that pops whenever it is resumed keeps `Close` in its loop, and is resumed by it again. -/
theorem pipeClose_loops :
    (∀ n, ∃ s, run pipeStep (pipeNew : PipeState ℕ) ([.start, .pop, .close] ++ List.replicate n .pop) = .ok s ∧ s.Closing) ∧
      ¬ Throughout pipeStep PipeState.Delivers (pipeNew : PipeState ℕ) [.start, .pop, .close, .pop] := by
  obtain ⟨s, hrun, hloops⟩ : ∃ s : PipeState ℕ, run pipeStep pipeNew [.start, .pop, .close] = .ok s ∧ s.Loops :=
    ⟨_, rfl, ⟨_, rfl, rfl, rfl⟩, rfl⟩
  refine ⟨fun n => ?_, fun h => ?_⟩
  · obtain ⟨s', hrun', h'⟩ := hloops.replicate n
    refine ⟨s', (run_append _ _ hrun).trans hrun', ⟨none, true⟩, ?_, rfl⟩
    rw [h'.frames]
    exact mem_cons_of_mem _ mem_cons_self
  · have hlast := ((((h.2 _ rfl).2 _ rfl).2 _ rfl).2 _ rfl).closing _ mem_cons_self
    exact absurd hlast.length_le (by decide)

end CServer.Fight
