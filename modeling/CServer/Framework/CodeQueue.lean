import CServer.Lib.Exec
import CServer.Lib.Ring

/-! # `framework/codequeue.c`: the message queue in shared memory

A header of three words and a ring of `size` bytes. A message is its length in four bytes, low
byte first, and its bytes; either may go over the end of the ring. The queue is empty when `begin`
and `end` are equal, and a push leaves at least `AG_CODEQUEEU_RESERVE` bytes free.
-/
namespace CServer.Framework
open CServer.Lib List Nat

/-! ## The code -/

def agCodequeueReserve : ℕ := 4

def sizeofCQ : ℕ := 24

structure CQ where
  beginPos : ℕ
  endPos : ℕ
  size : ℕ
  data : Mem

/-- The two alignment tests of `agCQ_attach`, of `&queue->begin` and of `&queue->end`. -/
def agCQAttach (ptr : ℕ) : Bool := decide (ptr % 8 = 0) && decide ((ptr + 8) % 8 = 0)

/-- `agCQ_open` on a block of `size` bytes at `ptr` that holds `memory` after the header. -/
def agCQOpen (ptr size : ℕ) (memory : Mem) : Option CQ :=
  if size < sizeofCQ + agCodequeueReserve then none
  else if agCQAttach ptr then some ⟨0, 0, size - sizeofCQ, memory⟩
  else none

variable (q : CQ)

/-- `SetCriticalData`; `none` is the argument -1. -/
def setCriticalData (beginPos endPos : Option ℕ) : CQ :=
  let q := match beginPos with
    | some b => if b < q.size then { q with beginPos := b } else q
    | none => q
  match endPos with
  | some e => if e < q.size then { q with endPos := e } else q
  | none => q

def cqSize : ℕ := if agCodequeueReserve ≤ q.size then q.size - agCodequeueReserve else 0

def cqLength (b e : ℕ) : ℕ := if b ≤ e then e - b else q.size + e - b

/-- `CQRead`: the bytes read and the position after them. -/
def cqRead (b len : ℕ) : Except Fault (List UInt8 × ℕ) :=
  if len < q.size - b then .ok (slice q.data b len, (b + len) % q.size)
  else
    let l1 := q.size - b
    if q.size < len - l1 then .error .outOfBounds
    else .ok (slice q.data b l1 ++ slice q.data 0 (len - l1), (b + len) % q.size)

def cqWrite (e : ℕ) (bs : List UInt8) : Except Fault (CQ × ℕ) :=
  if bs.length < q.size - e then .ok ({ q with data := blit q.data e bs }, (e + bs.length) % q.size)
  else
    let l1 := q.size - e
    if q.size < bs.length - l1 then .error .outOfBounds
    else .ok ({ q with data := blit (blit q.data e (bs.take l1)) 0 (bs.drop l1) }, (e + bs.length) % q.size)

inductive PopExit
  | empty
  | shortHead
  | small
  | shortBody
  | taken
  deriving DecidableEq, Repr

/-- What `agCQ_pop` returns, the bytes it stores in the caller's buffer, and where it returned. -/
structure PopResult where
  exit : PopExit
  ret : ℕ
  bytes : List UInt8

def agCQPop (len : ℕ) : Except Fault (CQ × PopResult) :=
  if q.beginPos = q.endPos then .ok (q, ⟨.empty, 0, []⟩)
  else
    let length := cqLength q q.beginPos q.endPos
    if length < 4 then .ok (setCriticalData q (some q.endPos) none, ⟨.shortHead, 0, []⟩)
    else do
      let (head, b) ← cqRead q q.beginPos 4
      let rlen := ofLe32 head
      -- buffer is small
      if len = 0 ∨ len < rlen then .ok (q, ⟨.small, rlen, []⟩)
      else
        let length := length - 4
        if 0 < rlen then
          if length < rlen then .ok (setCriticalData q (some q.endPos) none, ⟨.shortBody, 0, []⟩)
          else do
            let (body, b) ← cqRead q b rlen
            .ok (setCriticalData q (some b) none, ⟨.taken, rlen, body⟩)
        else .ok (setCriticalData q (some b) none, ⟨.taken, rlen, []⟩)

def agCQPush (bs : List UInt8) : Except Fault (CQ × ℕ) :=
  let size := cqSize q
  let length := cqLength q q.beginPos q.endPos
  let wlen := bs.length % 2 ^ 32
  if size < length + bs.length + 4 then .ok (q, 0)
  else do
    let (q, e) ← cqWrite q q.endPos (le32 wlen)
    if 0 < bs.length then do
      let (q, e) ← cqWrite q e bs
      .ok (setCriticalData q none (some e), bs.length)
    else .ok (setCriticalData q none (some e), bs.length)

/-! ## Runs -/

inductive CQOp
  | push (bs : List UInt8) (hlen : bs.length < 2 ^ 32)
  | pop (len : ℕ)

inductive CQOut
  | pushed (ret : ℕ)
  | popped (result : PopResult)

def cqStep : CQOp → Except Fault (CQ × CQOut)
  | .push bs _ => do
    let (q, ret) ← agCQPush q bs
    .ok (q, .pushed ret)
  | .pop len => do
    let (q, result) ← agCQPop q len
    .ok (q, .popped result)

/-! ## The queue of messages -/

def frame (bs : List UInt8) : List UInt8 := le32 bs.length ++ bs

def stored (ms : List (List UInt8)) : List UInt8 := ms.flatMap frame

/-- A queue of messages with room for `room` bytes, four of them for each message's length. -/
def messageStep (room : ℕ) (ms : List (List UInt8)) : CQOp → List (List UInt8) × CQOut
  | .push bs _ =>
    if (stored ms).length + bs.length + 4 ≤ room then (ms ++ [bs], .pushed bs.length) else (ms, .pushed 0)
  | .pop len =>
    match ms with
    | [] => ([], .popped ⟨.empty, 0, []⟩)
    | bs :: ms =>
      if len = 0 ∨ len < bs.length then (bs :: ms, .popped ⟨.small, bs.length, []⟩)
      else (ms, .popped ⟨.taken, bs.length, bs⟩)

theorem stored_cons (bs : List UInt8) (ms : List (List UInt8)) : stored (bs :: ms) = frame bs ++ stored ms := by
  simp [stored]

theorem stored_append_one (ms : List (List UInt8)) (bs : List UInt8) :
    stored (ms ++ [bs]) = stored ms ++ frame bs := by
  simp [stored]

theorem frame_length (bs : List UInt8) : (frame bs).length = bs.length + 4 := by
  rw [frame, length_append, le32_length, Nat.add_comm]

/-- The ring holds the messages `ms` from `begin` to `end`. -/
structure CQ.Holds (q : CQ) (room : ℕ) (ms : List (List UInt8)) : Prop where
  size_eq : q.size = room + agCodequeueReserve
  begin_lt : q.beginPos < q.size
  end_lt : q.endPos < q.size
  fits : (stored ms).length ≤ room
  small : ∀ bs ∈ ms, bs.length < 2 ^ 32
  end_eq : q.endPos = (q.beginPos + (stored ms).length) % q.size
  bytes : ringSlice q.data q.size q.beginPos (stored ms).length = stored ms

/-! ## One call -/

theorem cqRead_ok {q : CQ} {b len : ℕ} (hb : b < q.size) (hlen : len ≤ q.size) :
    cqRead q b len = .ok (ringSlice q.data q.size b len, (b + len) % q.size) := by
  rw [cqRead]
  by_cases h : len < q.size - b
  · have hfit : b + len ≤ q.size := by omega
    rw [if_pos h, slice_eq_ringSlice hfit]
  · have hrest : ¬ q.size < len - (q.size - b) := by omega
    have hsum : q.size - b + (len - (q.size - b)) = len := by omega
    have hfirst : b + (q.size - b) = q.size := by omega
    have hsecond : len - (q.size - b) ≤ q.size := by omega
    rw [if_neg h]
    simp only [hrest, if_false]
    rw [slice_wrap hfirst hsecond, hsum]

theorem cqWrite_ok {q : CQ} {e : ℕ} {bs : List UInt8} (he : e < q.size) (hlen : bs.length ≤ q.size) :
    cqWrite q e bs = .ok ({ q with data := ringBlit q.data q.size e bs }, (e + bs.length) % q.size) := by
  rw [cqWrite]
  by_cases h : bs.length < q.size - e
  · have hfit : e + bs.length ≤ q.size := by omega
    rw [if_pos h, blit_eq_ringBlit hfit]
  · have hrest : ¬ q.size < bs.length - (q.size - e) := by omega
    have htake : e + (bs.take (q.size - e)).length = q.size := by
      rw [length_take]
      omega
    have hdrop : (bs.drop (q.size - e)).length ≤ q.size := by
      rw [length_drop]
      omega
    rw [if_neg h]
    simp only [hrest, if_false]
    rw [blit_wrap htake hdrop, take_append_drop]

theorem ring_end {size b n : ℕ} (hb : b < size) (hn : n < size) :
    (b + n) % size = if b + n < size then b + n else b + n - size := by
  split
  · next h => exact mod_eq_of_lt h
  · rw [mod_eq_sub_mod (by omega), mod_eq_of_lt (by omega)]

variable {q : CQ} {room : ℕ} {ms : List (List UInt8)} {bs : List UInt8}

theorem CQ.Holds.length_eq (h : q.Holds room ms) : cqLength q q.beginPos q.endPos = (stored ms).length := by
  have hb := h.begin_lt
  have hfits := h.fits
  have hsize := h.size_eq
  rw [agCodequeueReserve] at hsize
  have hend := h.end_eq
  rw [ring_end hb (by omega)] at hend
  rw [cqLength]
  split at hend
  · rw [if_pos (by omega)]
    omega
  · rw [if_neg (by omega)]
    omega

theorem CQ.Holds.empty_iff (h : q.Holds room ms) : q.beginPos = q.endPos ↔ ms = [] := by
  have hlen := h.length_eq
  have hb := h.begin_lt
  have he := h.end_lt
  constructor
  · intro heq
    rw [heq, cqLength, if_pos (le_refl _), Nat.sub_self] at hlen
    cases ms with
    | nil => rfl
    | cons bs ms =>
      rw [stored_cons, length_append, frame_length] at hlen
      omega
  · rintro rfl
    have hzero : (stored []).length = 0 := rfl
    rw [hzero, cqLength] at hlen
    split at hlen
    · omega
    · omega

theorem agCQPush_full (h : q.Holds room ms) (hfull : room < (stored ms).length + bs.length + 4) :
    agCQPush q bs = .ok (q, 0) := by
  have hroom : cqSize q = room := by
    rw [cqSize, h.size_eq, if_pos (Nat.le_add_left ..), Nat.add_sub_cancel]
  simp only [agCQPush, hroom, h.length_eq, hfull, if_true]

theorem agCQPush_write (he : q.endPos < q.size)
    (hroom : cqLength q q.beginPos q.endPos + bs.length + 4 ≤ cqSize q) :
    agCQPush q bs = .ok ({ q with
      data := ringBlit q.data q.size q.endPos (le32 (bs.length % 2 ^ 32) ++ bs)
      endPos := (q.endPos + (bs.length + 4)) % q.size }, bs.length) := by
  have hnot : ¬ cqSize q < cqLength q q.beginPos q.endPos + bs.length + 4 := not_lt.mpr hroom
  have hle : cqSize q ≤ q.size := by
    rw [cqSize]
    split
    · exact sub_le ..
    · exact Nat.zero_le _
  have hpos : 0 < q.size := by omega
  have hhead := @cqWrite_ok q q.endPos (le32 (bs.length % 2 ^ 32)) he (by rw [le32_length]; omega)
  have hlast : (q.endPos + (bs.length + 4)) % q.size < q.size := mod_lt _ hpos
  simp only [agCQPush, hnot, if_false, hhead, ok_bind, le32_length]
  by_cases hb : 0 < bs.length
  · have hbody := @cqWrite_ok { q with data := ringBlit q.data q.size q.endPos (le32 (bs.length % 2 ^ 32)) }
      ((q.endPos + 4) % q.size) bs (mod_lt _ hpos) (by simp only; omega)
    have hmod : ringBlit (ringBlit q.data q.size q.endPos (le32 (bs.length % 2 ^ 32))) q.size
        ((q.endPos + 4) % q.size) bs =
        ringBlit q.data q.size q.endPos (le32 (bs.length % 2 ^ 32) ++ bs) := by
      rw [ringBlit_append, le32_length]
      exact ringBlit_mod bs (mod_mod _ _)
    have hend : ((q.endPos + 4) % q.size + bs.length) % q.size = (q.endPos + (bs.length + 4)) % q.size := by
      rw [mod_add_mod]
      congr 1
      omega
    simp only [hb, if_true, hbody, ok_bind, hend, hmod, setCriticalData, hlast]
  · have hnil : bs = [] := length_eq_zero_iff.mp (by omega)
    subst hnil
    rw [length_nil, Nat.zero_add] at hlast
    simp only [length_nil, Nat.zero_add, lt_irrefl, if_false, setCriticalData, hlast, if_true,
      append_nil]

theorem agCQPush_ok (h : q.Holds room ms) (hlen : bs.length < 2 ^ 32)
    (hfits : (stored ms).length + bs.length + 4 ≤ room) :
    ∃ q', agCQPush q bs = .ok (q', bs.length) ∧ q'.Holds room (ms ++ [bs]) := by
  have hsize := h.size_eq
  rw [agCodequeueReserve] at hsize
  have hroom : cqSize q = room := by
    rw [cqSize, h.size_eq, if_pos (Nat.le_add_left ..), Nat.add_sub_cancel]
  have hpos : 0 < q.size := by omega
  have hpush : agCQPush q bs = .ok ({ q with
      data := ringBlit q.data q.size q.endPos (frame bs)
      endPos := (q.endPos + (frame bs).length) % q.size }, bs.length) := by
    have hspace : cqLength q q.beginPos q.endPos + bs.length + 4 ≤ cqSize q := by
      rw [h.length_eq, hroom]
      exact hfits
    have hwrite := agCQPush_write h.end_lt hspace
    rwa [mod_eq_of_lt hlen, ← frame, ← frame_length] at hwrite
  refine ⟨_, hpush, h.size_eq, h.begin_lt, mod_lt _ hpos, ?_, ?_, ?_, ?_⟩
  · rw [stored_append_one, length_append, frame_length]
    omega
  · intro m hm
    rcases mem_append.mp hm with hm | hm
    · exact h.small m hm
    · rw [mem_singleton.mp hm]
      exact hlen
  · simp only
    rw [h.end_eq, mod_add_mod, stored_append_one, length_append, Nat.add_assoc]
  · simp only
    have hend : ringBlit q.data q.size q.endPos (frame bs) =
        ringBlit q.data q.size (q.beginPos + (stored ms).length) (frame bs) := by
      apply ringBlit_mod
      rw [h.end_eq, mod_mod]
    have hbefore : (stored ms).length + (frame bs).length ≤ q.size := by
      rw [frame_length]
      omega
    have hlenf : (frame bs).length ≤ q.size := by omega
    rw [stored_append_one, length_append, ringSlice_add, hend, ringSlice_ringBlit_before hbefore,
      ringSlice_ringBlit hlenf, h.bytes]

theorem agCQPop_empty (h : q.Holds room []) (len : ℕ) : agCQPop q len = .ok (q, ⟨.empty, 0, []⟩) := by
  rw [agCQPop, if_pos (h.empty_iff.mpr rfl)]

theorem CQ.Holds.head_bytes (h : q.Holds room (bs :: ms)) :
    ringSlice q.data q.size q.beginPos 4 = le32 bs.length ∧
    ringSlice q.data q.size (q.beginPos + 4) bs.length = bs ∧
    ringSlice q.data q.size (q.beginPos + (frame bs).length) (stored ms).length = stored ms := by
  have hbytes := h.bytes
  have hlen : (stored (bs :: ms)).length = 4 + (bs.length + (stored ms).length) := by
    rw [stored_cons, length_append, frame_length]
    omega
  have hframe : q.beginPos + 4 + bs.length = q.beginPos + (frame bs).length := by
    rw [frame_length]
    omega
  rw [hlen, ringSlice_add, ringSlice_add, hframe, stored_cons, frame, append_assoc] at hbytes
  obtain ⟨h1, h2⟩ := append_inj hbytes (by rw [ringSlice_length, le32_length])
  obtain ⟨h3, h4⟩ := append_inj h2 (by rw [ringSlice_length])
  exact ⟨h1, h3, h4⟩

theorem agCQPop_small (h : q.Holds room (bs :: ms)) {len : ℕ} (hlen : len = 0 ∨ len < bs.length) :
    agCQPop q len = .ok (q, ⟨.small, bs.length, []⟩) := by
  have hsize := h.size_eq
  rw [agCodequeueReserve] at hsize
  have hne : q.beginPos ≠ q.endPos := fun he => absurd (h.empty_iff.mp he) (by simp)
  have htotal : (stored (bs :: ms)).length = bs.length + 4 + (stored ms).length := by
    rw [stored_cons, length_append, frame_length]
  have hhead : ¬ (stored (bs :: ms)).length < 4 := by omega
  have hbs : bs.length < 2 ^ 32 := h.small bs (by simp)
  simp only [agCQPop, hne, if_false, h.length_eq, hhead, cqRead_ok h.begin_lt (by omega : 4 ≤ q.size), ok_bind,
    h.head_bytes.1, ofLe32_le32 hbs, hlen, if_true]

theorem agCQPop_taken (h : q.Holds room (bs :: ms)) {len : ℕ} (hlen : ¬ (len = 0 ∨ len < bs.length)) :
    ∃ q', agCQPop q len = .ok (q', ⟨.taken, bs.length, bs⟩) ∧ q'.Holds room ms := by
  have hsize := h.size_eq
  rw [agCodequeueReserve] at hsize
  have hfits := h.fits
  have hpos : 0 < q.size := by omega
  have hne : q.beginPos ≠ q.endPos := fun he => absurd (h.empty_iff.mp he) (by simp)
  have htotal : (stored (bs :: ms)).length = bs.length + 4 + (stored ms).length := by
    rw [stored_cons, length_append, frame_length]
  have hhead : ¬ (stored (bs :: ms)).length < 4 := by omega
  have hbody : ¬ (stored (bs :: ms)).length - 4 < bs.length := by omega
  have hbs : bs.length < 2 ^ 32 := h.small bs (by simp)
  obtain ⟨hb1, hb2, hb3⟩ := h.head_bytes
  have hlast : (q.beginPos + (frame bs).length) % q.size < q.size := mod_lt _ hpos
  have hend : ((q.beginPos + 4) % q.size + bs.length) % q.size = (q.beginPos + (frame bs).length) % q.size := by
    rw [mod_add_mod, frame_length]
    congr 1
    omega
  have hpop : agCQPop q len = .ok ({ q with beginPos := (q.beginPos + (frame bs).length) % q.size },
      ⟨.taken, bs.length, bs⟩) := by
    simp only [agCQPop, hne, if_false, h.length_eq, hhead, cqRead_ok h.begin_lt (by omega : 4 ≤ q.size),
      ok_bind, hb1, ofLe32_le32 hbs, hlen, hbody]
    by_cases hb : 0 < bs.length
    · have hread := @cqRead_ok q ((q.beginPos + 4) % q.size) bs.length (mod_lt _ hpos) (by omega)
      rw [ringSlice_mod, hb2, hend] at hread
      simp only [hb, if_true, hread, ok_bind, setCriticalData, hlast]
    · have hnil : bs = [] := length_eq_zero_iff.mp (by omega)
      subst hnil
      rw [frame_length] at hlast
      simp only [length_nil, Nat.zero_add] at hlast
      simp only [frame_length, length_nil, Nat.zero_add, lt_irrefl, if_false, setCriticalData, hlast, if_true]
  refine ⟨_, hpop, h.size_eq, hlast, h.end_lt, by omega, fun m hm => h.small m (mem_cons_of_mem _ hm), ?_, ?_⟩
  · simp only
    rw [h.end_eq, mod_add_mod, htotal, frame_length]
    congr 1
    omega
  · simp only
    rw [ringSlice_mod, hb3]

/-! ## Every run -/

theorem cqStep_holds (h : q.Holds room ms) (op : CQOp) :
    ∃ q', cqStep q op = .ok (q', (messageStep room ms op).2) ∧ q'.Holds room (messageStep room ms op).1 := by
  cases op with
  | push bs hlen =>
    by_cases hfits : (stored ms).length + bs.length + 4 ≤ room
    · obtain ⟨q', hpush, h'⟩ := agCQPush_ok h hlen hfits
      refine ⟨q', ?_, ?_⟩
      · simp only [cqStep, hpush, ok_bind, messageStep, hfits, if_true]
      · simpa only [messageStep, hfits, if_true] using h'
    · refine ⟨q, ?_, ?_⟩
      · simp only [cqStep, agCQPush_full h (not_le.mp hfits), ok_bind, messageStep, hfits, if_false]
      · simpa only [messageStep, hfits, if_false] using h
  | pop len =>
    cases ms with
    | nil => exact ⟨q, by simp only [cqStep, agCQPop_empty h, ok_bind, messageStep], h⟩
    | cons bs ms =>
      by_cases hlen : len = 0 ∨ len < bs.length
      · refine ⟨q, ?_, ?_⟩
        · simp only [cqStep, agCQPop_small h hlen, ok_bind, messageStep, hlen, if_true]
        · simpa only [messageStep, hlen, if_true] using h
      · obtain ⟨q', hpop, h'⟩ := agCQPop_taken h hlen
        refine ⟨q', ?_, ?_⟩
        · simp only [cqStep, hpop, ok_bind, messageStep, hlen, if_false]
        · simpa only [messageStep, hlen, if_false] using h'

theorem agCQOpen_holds {ptr size : ℕ} {memory : Mem} (h : agCQOpen ptr size memory = some q) :
    q.Holds (size - sizeofCQ - agCodequeueReserve) [] := by
  rw [agCQOpen] at h
  by_cases hsize : size < sizeofCQ + agCodequeueReserve
  · simp [hsize] at h
  · rw [if_neg hsize] at h
    by_cases hattach : agCQAttach ptr = true
    · rw [if_pos hattach, Option.some.injEq] at h
      subst h
      rw [sizeofCQ, agCodequeueReserve] at hsize
      have hpos : 0 < size - 24 := by omega
      refine ⟨?_, hpos, hpos, Nat.zero_le _, by simp, ?_, rfl⟩
      · simp only [sizeofCQ, agCodequeueReserve]
        omega
      · rw [show (stored []).length = 0 from rfl, Nat.add_zero, zero_mod]
    · simp [hattach] at h

/-- The call refused: a push of a non-empty message that returned 0, or a pop with a small buffer. -/
def CQOp.refused : CQOp → CQOut → Prop
  | .push bs _, .pushed ret => bs ≠ [] ∧ ret = 0
  | .pop _, .popped result => result.exit = .small
  | _, _ => False

def CQOut.error : CQOut → Prop
  | .pushed _ => False
  | .popped result => result.exit = .shortHead ∨ result.exit = .shortBody

theorem messageStep_no_error (room : ℕ) (ms : List (List UInt8)) (op : CQOp) :
    ¬ (messageStep room ms op).2.error := by
  cases op with
  | push bs hlen =>
    simp only [messageStep]
    split
    · exact id
    · exact id
  | pop len =>
    cases ms with
    | nil => simp [messageStep, CQOut.error]
    | cons bs ms =>
      simp only [messageStep]
      split
      · simp [CQOut.error]
      · simp [CQOut.error]

theorem cqStep_refused (h : q.Holds room ms) {op : CQOp} {q' : CQ} {out : CQOut}
    (hstep : cqStep q op = .ok (q', out)) (href : op.refused out) : q' = q := by
  cases op with
  | push bs hlen =>
    by_cases hfits : (stored ms).length + bs.length + 4 ≤ room
    · obtain ⟨q₁, hpush, -⟩ := agCQPush_ok h hlen hfits
      simp only [cqStep, hpush, ok_bind, ok_pair_iff] at hstep
      rw [← hstep.2] at href
      exact absurd (length_eq_zero_iff.mp href.2) href.1
    · simp only [cqStep, agCQPush_full h (not_le.mp hfits), ok_bind, ok_pair_iff] at hstep
      exact hstep.1.symm
  | pop len =>
    cases ms with
    | nil =>
      simp only [cqStep, agCQPop_empty h, ok_bind, ok_pair_iff] at hstep
      exact hstep.1.symm
    | cons bs ms =>
      by_cases hlen : len = 0 ∨ len < bs.length
      · simp only [cqStep, agCQPop_small h hlen, ok_bind, ok_pair_iff] at hstep
        exact hstep.1.symm
      · obtain ⟨q₁, hpop, -⟩ := agCQPop_taken h hlen
        simp only [cqStep, hpop, ok_bind, ok_pair_iff] at hstep
        rw [← hstep.2] at href
        exact absurd href (by simp [CQOp.refused])

/-- From `agCQ_open` on, every sequence of pushes and pops behaves as a queue of messages: no access
outside the ring, the outputs of the queue, `begin` and `end` inside the ring, no error branch
taken, and a call that refuses changes nothing. -/
theorem agCQ_refines_queue {ptr size : ℕ} {memory : Mem} {q : CQ} (hopen : agCQOpen ptr size memory = some q)
    (ops : List CQOp) :
    ∃ q' outs, exec cqStep q ops = .ok (q', outs) ∧
      outs = (specExec (messageStep (size - sizeofCQ - agCodequeueReserve)) [] ops).2 ∧
      (q'.beginPos < q'.size ∧ q'.endPos < q'.size) ∧ (∀ out ∈ outs, ¬ out.error) ∧
      ∀ op q'' out, cqStep q' op = .ok (q'', out) → op.refused out → q'' = q' := by
  have hsim : ∀ q ms op, CQ.Holds q (size - sizeofCQ - agCodequeueReserve) ms → _ :=
    fun q ms op h => cqStep_holds h op
  obtain ⟨q', hexec, h'⟩ := exec_simulates hsim ops q [] (agCQOpen_holds hopen)
  refine ⟨q', _, hexec, rfl, ⟨h'.begin_lt, h'.end_lt⟩, ?_, fun op q'' out => cqStep_refused h'⟩
  exact specExec_outputs (fun ms op => messageStep_no_error _ ms op) ops []

theorem agCQ_refines_queue_wraps :
    ∃ q q' outs, agCQOpen 0 44 (fun _ => 0) = some q ∧
      exec cqStep q [.push [1, 2, 3, 4, 5, 6] (by decide), .pop 8, .push [7, 8, 9, 10, 11, 12, 13] (by decide),
        .pop 3, .pop 8] = .ok (q', outs) ∧
      outs = [.pushed 6, .popped ⟨.taken, 6, [1, 2, 3, 4, 5, 6]⟩, .pushed 7, .popped ⟨.small, 7, []⟩,
        .popped ⟨.taken, 7, [7, 8, 9, 10, 11, 12, 13]⟩] := by
  have hopen : agCQOpen 0 44 (fun _ => 0) = some ⟨0, 0, 20, fun _ => 0⟩ := rfl
  obtain ⟨q', outs, hexec, houts, -⟩ := agCQ_refines_queue hopen
    [.push [1, 2, 3, 4, 5, 6] (by decide), .pop 8, .push [7, 8, 9, 10, 11, 12, 13] (by decide), .pop 3, .pop 8]
  exact ⟨_, q', outs, hopen, hexec, houts⟩

end CServer.Framework
