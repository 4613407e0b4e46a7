import CServer.Lib.SortedRing
import CServer.Modules.Item

/-! # `world/modules/buff.c`: buffs of players and of everyone

The buffs of a player are in a map and, unless they had expired when they were put there, in a list with the latest end
first. Those of everyone are the set of the player 0, `gBuffSet`; it has functions of its own. Sets are loaded when they
are first needed; `remove_global_buff` alone does not load what it needs.

The database answers every call here. Notifications are left out.
-/
namespace CServer.Modules
open CServer.Lib Function

/-! ## The code -/

structure Buff where
  pid : ℕ
  buffId : ℕ
  endTime : ℤ
  value : ℕ

structure BuffSet where
  m : ℕ → Option ℕ
  list : Option ℕ

/-- All nodes, of which `top` have been allocated, and the sets that are loaded. -/
structure BuffState where
  heap : DHeap
  buff : ℕ → Buff
  set : ℕ → Option BuffSet
  top : ℕ

/-- The rows of each player, the primary key of which is the player and the buff. -/
structure BuffRows where
  rows : ℕ → List Buff
  pid_eq : ∀ pid, ∀ b ∈ rows pid, b.pid = pid
  distinct : ∀ pid, ((rows pid).map Buff.buffId).Nodup

namespace BuffState

/-- `malloc` and its assignments; a row that has been read hangs together with the next one. -/
def alloc (s : BuffState) (b : Buff) (next : Option ℕ) : BuffState where
  heap := ⟨update s.heap.alive s.top true, update s.heap.prev s.top none,
    update s.heap.next s.top next⟩
  buff := update s.buff s.top b
  set := s.set
  top := s.top + 1

def insertIntoSortDlist (now : ℤ) (s : BuffState) (list : Option ℕ) (cur : ℕ) : Except Fault (BuffState × Option ℕ) :=
  if now > (s.buff cur).endTime then .ok (s, list)
  else do
    let (heap, list) ← dlistInsertSorted (fun a => (s.buff a).endTime) s.top s.heap list cur
    return ({ s with heap := heap }, list)

def loadLoop (now : ℤ) : List Buff → BuffState → BuffSet → Except Fault (BuffState × BuffSet)
  | [], s, set => .ok (s, set)
  | b :: rest, s, set => do
    let cur := s.top
    let (s, list) ← (s.alloc b (if rest = [] then none else some (cur + 1))).insertIntoSortDlist now set.list cur
    loadLoop now rest s ⟨update set.m b.buffId (some cur), list⟩

def load (db : BuffRows) (now : ℤ) (s : BuffState) (pid : ℕ) : Except Fault (BuffState × BuffSet) :=
  match s.set pid with
  | some set => .ok (s, set)
  | none => do
    let (s, set) ← loadLoop now (db.rows pid) s ⟨fun _ => none, none⟩
    return ({ s with set := update s.set pid (some set) }, set)

end BuffState

variable (now : ℤ)

def Buff.extend (b : Buff) (value endTime : ℤ) : Buff :=
  { b with
    value := if b.endTime < now then toUnsigned value else toUnsigned (b.value + value)
    endTime := endTime }

def BuffState.resort (s : BuffState) (pid : ℕ) (set : BuffSet) (a : ℕ) (b : Buff) : Except Fault BuffState := do
  let (heap, list) ← dlistRemove s.heap set.list a
  let (s, list) ← BuffState.insertIntoSortDlist now { s with heap := heap, buff := update s.buff a b } list a
  return { s with set := update s.set pid (some { set with list := list }) }

def BuffState.addNew (s : BuffState) (pid : ℕ) (set : BuffSet) (b : Buff) : Except Fault BuffState := do
  let (s', list) ← (s.alloc b none).insertIntoSortDlist now set.list s.top
  return { s' with set := update s'.set pid (some ⟨update set.m b.buffId (some s.top), list⟩) }

def BuffState.reduce (s : BuffState) (pid : ℕ) (set : BuffSet) (a : ℕ) (more : Bool) (value : ℤ) :
    Except Fault BuffState :=
  let b := s.buff a
  if more then
    .ok { s with buff := update s.buff a { b with value := toUnsigned (b.value - value) } }
  else do
    let (heap, list) ← dlistRemove s.heap set.list a
    return { s with
      heap := heap
      buff := update s.buff a { b with endTime := now }
      set := update s.set pid (some ⟨update set.m b.buffId none, list⟩) }

/-- When `add_global_buff` leaves a buff alone; the value is an `unsigned int`. -/
def globalKeeps (b : Buff) (value : ℕ) (endTime : ℤ) : Prop := b.endTime > endTime ∧ value ≤ 0

def playerKeeps (b : Buff) (value endTime : ℤ) : Prop := value ≤ 0 ∧ endTime ≤ b.endTime

instance (b : Buff) (value : ℕ) (endTime : ℤ) : Decidable (globalKeeps b value endTime) :=
  inferInstanceAs (Decidable (_ ∧ _))

instance (b : Buff) (value endTime : ℤ) : Decidable (playerKeeps b value endTime) := inferInstanceAs (Decidable (_ ∧ _))

/-- A new buff of `add_global_buff`: its value stays as `memset` has left it. -/
def newGlobal (buffId : ℕ) (endTime : ℤ) : Buff := ⟨0, buffId, endTime, 0⟩

def newPlayer (pid buffId : ℕ) (value endTime : ℤ) : Buff := ⟨pid, buffId, endTime, toUnsigned value⟩

namespace BuffState

def addGlobalBuff (db : BuffRows) (now : ℤ) (s : BuffState) (buffId value : ℕ) (endTime : ℤ) : Except Fault BuffState := do
  let (s, set) ← s.load db now 0
  match set.m buffId with
  | some a =>
    if globalKeeps (s.buff a) value endTime then .ok s
    else s.resort now 0 set a ((s.buff a).extend now value endTime)
  | none => s.addNew now 0 set (newGlobal buffId endTime)

def removeGlobalBuff (now : ℤ) (s : BuffState) (buffId value : ℕ) : Except Fault BuffState :=
  match s.set 0 with
  | none => .error .outOfBounds
  | some set =>
    match set.m buffId with
    | none => .ok s
    | some a => s.reduce now 0 set a (decide ((s.buff a).value > value)) value

/-- `players` says for whom `player_get` finds a player. -/
def buffAdd (db : BuffRows) (players : ℕ → Bool) (now : ℤ) (s : BuffState) (pid buffId : ℕ) (value endTime : ℤ) :
    Except Fault BuffState :=
  if pid ≠ 0 then
    if players pid then do
      let (s, set) ← s.load db now pid
      match set.m buffId with
      | some a =>
        if playerKeeps (s.buff a) value endTime then .ok s
        else s.resort now pid set a ((s.buff a).extend now value endTime)
      | none => s.addNew now pid set (newPlayer pid buffId value endTime)
    else .ok s
  else s.addGlobalBuff db now buffId (toUnsigned value) endTime

def buffRemove (db : BuffRows) (players : ℕ → Bool) (now : ℤ) (s : BuffState) (pid buffId : ℕ) (value : ℤ) :
    Except Fault BuffState :=
  if pid ≠ 0 then
    if players pid then do
      let (s, set) ← s.load db now pid
      match set.m buffId with
      | none => .ok s
      | some a => s.reduce now pid set a (decide (toInt (s.buff a).value > value)) value
    else .ok s
  else s.removeGlobalBuff now buffId (toUnsigned value)

def globalBuffNext (db : BuffRows) (now : ℤ) (s : BuffState) (buff : Option ℕ) : Except Fault (Option ℕ × BuffState) := do
  let (s, set) ← s.load db now 0
  match ← dlistNext s.heap set.list buff with
  | none => .ok (none, s)
  | some it => if now > (s.buff it).endTime then .ok (none, s) else return (← dlistNext s.heap set.list buff, s)

def buffNext (db : BuffRows) (now : ℤ) (s : BuffState) (pid : ℕ) (buff : Option ℕ) :
    Except Fault (Option ℕ × BuffState) :=
  if buff.any fun a => (s.buff a).pid = 0 then s.globalBuffNext db now buff
  else do
    let (s, set) ← s.load db now pid
    match ← dlistNext s.heap set.list buff with
    | none => s.globalBuffNext db now none
    | some it =>
      if now > (s.buff it).endTime then s.globalBuffNext db now none
      else return (← dlistNext s.heap set.list buff, s)

/-- The loop that calls `buff_next` until it answers null, from behind `ite` on. -/
def buffList (db : BuffRows) (now : ℤ) (pid : ℕ) : ℕ → BuffState → Option ℕ → Except Fault (List ℕ × BuffState)
  | 0, _, _ => .error .diverges
  | k + 1, s, ite => do
    match ← s.buffNext db now pid ite with
    | (none, s) => .ok ([], s)
    | (some a, s) => do
      let (rest, s) ← buffList db now pid k s (some a)
      return (a :: rest, s)

def init : BuffState := ⟨⟨fun _ => false, fun _ => none, fun _ => none⟩, fun _ => ⟨0, 0, 0, 0⟩, fun _ => none, 0⟩

end BuffState

/-! ## What adding makes of a buff -/

def globalBuff (held : Option Buff) (buffId value : ℕ) (endTime : ℤ) : Buff :=
  match held with
  | none => newGlobal buffId endTime
  | some b => if globalKeeps b value endTime then b else b.extend now value endTime

def playerBuff (held : Option Buff) (pid buffId : ℕ) (value endTime : ℤ) : Buff :=
  match held with
  | none => newPlayer pid buffId value endTime
  | some b => if playerKeeps b value endTime then b else b.extend now value endTime

structure Held where
  endTime : ℤ
  value : ℕ
  value_lt : value < 2 ^ 32

def Held.buff (pid buffId : ℕ) (b : Held) : Buff := ⟨pid, buffId, b.endTime, b.value⟩

/-- Nothing is added where there is no buff; where there is one that ends no earlier, no value is added that only
`buff_add` ignores, unless it would change nothing. -/
def SameRule (held : Option Held) (value endTime : ℤ) : Prop :=
  match held with
  | none => value = 0
  | some b =>
    (value = 0 → endTime = b.endTime → now ≤ b.endTime ∨ b.value = 0) ∧
    (value < 0 → endTime ≤ b.endTime → b.endTime < now ∧ b.value = toUnsigned value ∧ b.endTime = endTime)

theorem toUnsigned_eq_zero {value : ℤ} (hlow : -2 ^ 31 ≤ value) (hhigh : value < 2 ^ 31) : toUnsigned value = 0 ↔ value = 0 := by
  unfold toUnsigned
  omega

theorem toUnsigned_add_toUnsigned (n value : ℤ) : toUnsigned (n + toUnsigned value) = toUnsigned (n + value) := by
  unfold toUnsigned
  omega

theorem toUnsigned_toUnsigned (value : ℤ) : toUnsigned (toUnsigned value) = toUnsigned value := by
  unfold toUnsigned
  omega

theorem extend_toUnsigned (b : Buff) (value endTime : ℤ) :
    b.extend now (toUnsigned value) endTime = b.extend now value endTime := by
  simp only [Buff.extend, toUnsigned_add_toUnsigned, toUnsigned_toUnsigned]

theorem addRules_agree_iff (held : Option Held) (pid buffId : ℕ) (value endTime : ℤ) (hlow : -2 ^ 31 ≤ value)
    (hhigh : value < 2 ^ 31) :
    ((globalBuff now (held.map (Held.buff 0 buffId)) buffId (toUnsigned value) endTime).value =
        (playerBuff now (held.map (Held.buff pid buffId)) pid buffId value endTime).value ∧
      (globalBuff now (held.map (Held.buff 0 buffId)) buffId (toUnsigned value) endTime).endTime =
        (playerBuff now (held.map (Held.buff pid buffId)) pid buffId value endTime).endTime) ↔
      SameRule now held value endTime := by
  have hzero := toUnsigned_eq_zero hlow hhigh
  cases held with
  | none =>
    simp only [Option.map_none, globalBuff, playerBuff, newGlobal, newPlayer, SameRule, and_true]
    rw [eq_comm, hzero]
  | some b =>
    have hv := b.value_lt
    have hplayer_iff : playerKeeps (b.buff pid buffId) value endTime ↔ value ≤ 0 ∧ endTime ≤ b.endTime := Iff.rfl
    have hglobal_iff : globalKeeps (b.buff 0 buffId) (toUnsigned value) endTime ↔ b.endTime > endTime ∧ value = 0 := by
      rw [← hzero, ← nonpos_iff_eq_zero]
      exact Iff.rfl
    simp only [Option.map_some, globalBuff, playerBuff, SameRule, extend_toUnsigned]
    by_cases hplayer : value ≤ 0 ∧ endTime ≤ b.endTime
    · rw [if_pos (hplayer_iff.mpr hplayer)]
      by_cases hglobal : b.endTime > endTime ∧ value = 0
      · -- both leave the buff alone
        rw [if_pos (hglobal_iff.mpr hglobal)]
        constructor
        · intro _
          exact ⟨fun _ he => absurd hglobal.1 (by omega), fun hneg => absurd hglobal.2 (by omega)⟩
        · intro _
          exact ⟨rfl, rfl⟩
      · -- only the player's buff is left alone
        rw [if_neg (mt hglobal_iff.mp hglobal)]
        simp only [Buff.extend, Held.buff]
        by_cases hneg : value < 0
        · have hsum : b.endTime < now ∨ toUnsigned (b.value + value) ≠ b.value := by
            right
            unfold toUnsigned
            omega
          constructor
          · intro hres
            refine ⟨fun h0 => absurd h0 (by omega), fun _ _ => ?_⟩
            by_cases hexp : b.endTime < now
            · simp only [hexp, if_true] at hres
              exact ⟨hexp, hres.1.symm, hres.2.symm⟩
            · simp only [hexp, if_false] at hres
              exact absurd hres.1 (hsum.resolve_left hexp)
          · intro hrule
            obtain ⟨hexp, hval, hend⟩ := hrule.2 hneg hplayer.2
            simp only [hexp, if_true]
            exact ⟨hval.symm, hend.symm⟩
        · obtain rfl : value = 0 := by omega
          obtain rfl : endTime = b.endTime := by
            by_contra hne
            exact hglobal ⟨by omega, rfl⟩
          have hvsame : toUnsigned (b.value + 0) = b.value := by
            unfold toUnsigned
            omega
          have h0 : toUnsigned 0 = 0 := rfl
          simp only [hvsame, h0, and_true, lt_irrefl, false_imp_iff, forall_const]
          split
          · constructor
            · intro hval
              exact .inr hval.symm
            · intro hval
              exact (hval.resolve_left (by omega)).symm
          · simp only [true_iff]
            left
            omega
    · -- the player's buff is changed, and so is the other
      have hglobal : ¬ (b.endTime > endTime ∧ value = 0) := by
        intro hkeep
        exact hplayer ⟨by omega, by omega⟩
      rw [if_neg (mt hplayer_iff.mp hplayer), if_neg (mt hglobal_iff.mp hglobal)]
      constructor
      · intro _
        exact ⟨fun h0 he => absurd (show value ≤ 0 ∧ endTime ≤ b.endTime from ⟨by omega, by omega⟩) hplayer,
          fun hneg hle => absurd (show value ≤ 0 ∧ endTime ≤ b.endTime from ⟨by omega, hle⟩) hplayer⟩
      · intro _
        exact ⟨rfl, rfl⟩

theorem addRules_agree_three :
    (globalBuff 50 (some ⟨0, 7, 100, 2⟩) 7 (toUnsigned 3) 200).value = (playerBuff 50 (some ⟨1, 7, 100, 2⟩) 1 7 3 200).value ∧
      (globalBuff 50 (some ⟨0, 7, 100, 2⟩) 7 (toUnsigned 3) 200).endTime =
        (playerBuff 50 (some ⟨1, 7, 100, 2⟩) 1 7 3 200).endTime :=
  (addRules_agree_iff 50 (some ⟨100, 2, by decide⟩) 1 7 3 200 (by decide) (by decide)).mpr
    ⟨by decide, fun h => absurd h (by decide)⟩

/-- A buff that everyone gets for the first time has no value. -/
theorem addRules_differ : ¬ ∀ (now : ℤ) (held : Option Held) (pid buffId : ℕ) (value endTime : ℤ), -2 ^ 31 ≤ value →
    value < 2 ^ 31 → (globalBuff now (held.map (Held.buff 0 buffId)) buffId (toUnsigned value) endTime).value =
      (playerBuff now (held.map (Held.buff pid buffId)) pid buffId value endTime).value := by
  intro h
  exact absurd (h 50 none 1 7 5 100 (by decide) (by decide)) (by decide)

end CServer.Modules
