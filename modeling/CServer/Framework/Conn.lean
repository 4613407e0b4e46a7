import CServer.Framework.Buffer

/-! # `framework/network.c`: connections

The record of one connection and the registration of its events. The handler functions and their
context are parameters of the functions that call them.
-/
namespace CServer.Framework
open CServer.Lib

inductive ConnStatus
  | closed
  | listening
  | connecting
  | connected
  | closing
  | connectedWaitCb
  deriving DecidableEq, Repr

/-- `struct conn`; a connection is addressed by its slot in the resource manager. -/
structure Conn where
  next : Option ℕ
  inActiveList : Bool
  id : ℕ
  status : ConnStatus
  fd : Int
  events : ℕ
  rbuf : Option Buffer
  wbuf : Option Buffer

/-- A connection after `memset(c, 0, sizeof(struct conn))`. -/
def Conn.zero : Conn := ⟨none, false, 0, .closed, 0, 0, none, none⟩

def epollIn : ℕ := 1
def epollOut : ℕ := 4

def defaultBufferSize : ℕ := 1024

/-- `conn_set_event`; `ctl` is what `epoll_ctl` returns if it is called. -/
def connSetEvent (ctl : Int) (c : Conn) (events : ℕ) : Int × Conn :=
  if events = c.events then (0, c)
  else if ctl = 0 then (ctl, { c with events := events })
  else (ctl, c)

theorem connSetEvent_frame (ctl : Int) (c : Conn) (events : ℕ) :
    ∃ ev, (connSetEvent ctl c events).2 = { c with events := ev } := by
  unfold connSetEvent
  split
  · exact ⟨c.events, rfl⟩
  · split
    · exact ⟨events, rfl⟩
    · exact ⟨c.events, rfl⟩

def hasBytes : Option Buffer → Except Fault Bool
  | none => .ok false
  | some b => do
    let size ← agBSize b
    return decide (0 < size)

def bytesOf : Option Buffer → List UInt8
  | none => []
  | some b => b.contents

/-- A buffer pointer is `NULL` or points to a buffer in order. -/
def BufOk : Option Buffer → Prop
  | none => True
  | some b => b.Ok

theorem hasBytes_ok {ob : Option Buffer} (h : BufOk ob) : hasBytes ob = .ok (decide (bytesOf ob ≠ [])) := by
  cases ob with
  | none => simp [hasBytes, bytesOf]
  | some b =>
    have hl : decide (0 < b.contents.length) = decide (b.contents ≠ []) := by
      rw [decide_eq_decide]
      exact List.length_pos_iff
    change hasBytes (some b) = .ok (decide (b.contents ≠ []))
    rw [hasBytes, agBSize_ok h, ok_bind, pure_eq_ok, hl]

def ensureBuffer (alloc : ℕ → Bool) (fresh : Mem) : Option Buffer → Except Fault (Option Buffer)
  | none => agBNew alloc fresh defaultBufferSize
  | some b => .ok (some b)

theorem ensureBuffer_ok {alloc : ℕ → Bool} (halloc : ∀ n, alloc n = true) (fresh : Mem)
    {ob : Option Buffer} (h : BufOk ob) :
    ∃ b, ensureBuffer alloc fresh ob = .ok (some b) ∧ b.Ok ∧ b.contents = bytesOf ob := by
  cases ob with
  | none =>
    obtain ⟨b, hnew, hok, hc⟩ := agBNew_ok alloc halloc fresh defaultBufferSize
    exact ⟨b, hnew, hok, hc⟩
  | some b => exact ⟨b, rfl, h, rfl⟩

end CServer.Framework
