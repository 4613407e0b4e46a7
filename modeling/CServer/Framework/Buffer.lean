import CServer.Lib.Memory
import CServer.Lib.Exec

/-! # `framework/buffer.c`: the growing byte buffer

`struct buffer` is a block of `size` bytes with a read and a write position. Reserving space may
double the block, move the unread bytes to its start, or reuse the block from the start when
everything has been read. The functions below follow the source one by one: `CHECK` and the two
`assert`s are faults, so is a store outside the block, and `alloc n` tells whether an allocation
of `n` bytes succeeds. `size_t` values are natural numbers: a buffer whose size would not fit in
`size_t` cannot be allocated. The statistics counters are left out, nothing reads them.
-/
namespace CServer.Framework
open CServer.Lib

/-! ## The code -/

structure Buffer where
  size : ℕ
  rpos : ℕ
  wpos : ℕ
  data : Mem

def align (s : ℕ) : ℕ := (s + 3) / 4 * 4

def sizeofBuffer : ℕ := 32

variable (alloc : ℕ → Bool)

/-- `_agB_new`. The fresh block holds arbitrary bytes. The result of the second `MALLOC` is not
checked by the source: the `NULL` it may leave in `data` is the fault reported here. -/
def agBNew (fresh : Mem) (size : ℕ) : Except Fault (Option Buffer) :=
  let size := if size = 0 then 64 else size
  let size := align size
  if alloc sizeofBuffer then
    if alloc size then .ok (some ⟨size, 0, 0, fresh⟩) else .error .outOfBounds
  else .ok none

variable (buf : Buffer)

def Buffer.check : Except Fault Unit :=
  assert (decide (buf.wpos ≤ buf.size ∧ buf.rpos ≤ buf.size ∧ buf.rpos ≤ buf.wpos))

def agBSize : Except Fault ℕ := do
  buf.check
  return buf.wpos - buf.rpos

def agBAlign : Buffer :=
  if 0 < buf.rpos ∧ buf.rpos < buf.wpos then
    let s := buf.wpos - buf.rpos
    { buf with data := shift buf.data 0 buf.rpos s, rpos := 0, wpos := s }
  else buf

def agBResize (size : ℕ) : Except Fault (Int × Buffer) := do
  if size < buf.wpos - buf.rpos then return (-1, buf)
  let buf := if size < buf.wpos then agBAlign buf else buf
  assert (decide (buf.wpos ≤ size))
  if alloc size then return (0, { buf with size := size }) else return (-1, buf)

def agBPeek (len : ℕ) : Except Fault (Option ℕ) := do
  buf.check
  if buf.wpos - buf.rpos < len then return none else return some buf.rpos

def agBRead (len : ℕ) : Except Fault (Option ℕ × Buffer) := do
  buf.check
  if buf.wpos - buf.rpos < len then return (none, buf)
  else return (some buf.rpos, { buf with rpos := buf.rpos + len })

/-- `while (ns < nr) ns *= 2`, given up after `fuel` rounds. -/
def growLoop : ℕ → ℕ → ℕ → Except Fault ℕ
  | 0, ns, nr => if ns < nr then .error .diverges else .ok ns
  | fuel + 1, ns, nr => if ns < nr then growLoop fuel (ns * 2) nr else .ok ns

/-- The part of `_agB_buffer` after the block is large enough. -/
def agBReserve (len : ℕ) : Except Fault (Option ℕ × Buffer) := do
  let buf := if buf.rpos = buf.wpos then { buf with rpos := 0, wpos := 0 } else buf
  let tail := buf.size - buf.wpos
  let buf := if tail < len then agBAlign buf else buf
  assert (decide (len ≤ buf.size - buf.wpos))
  return (some buf.wpos, { buf with wpos := buf.wpos + len })

def agBBuffer (len : ℕ) : Except Fault (Option ℕ × Buffer) := do
  buf.check
  let nr := buf.wpos - buf.rpos + len
  let ns ← growLoop nr buf.size nr
  if ns ≠ buf.size then
    let (ret, buf) ← agBResize alloc buf ns
    if ret ≠ 0 then return (none, buf)
    agBReserve buf len
  else agBReserve buf len

def Buffer.fill (ptr : ℕ) (bs : List UInt8) : Except Fault Buffer :=
  if ptr + bs.length ≤ buf.size then .ok { buf with data := blit buf.data ptr bs }
  else .error .outOfBounds

def agBWrite (bs : List UInt8) : Except Fault (Int × Buffer) := do
  match ← agBBuffer alloc buf bs.length with
  | (none, buf) => return (-1, buf)
  | (some ptr, buf) => return (0, ← buf.fill ptr bs)

def agBGetc : Except Fault (UInt8 × Buffer) := do
  match ← agBRead buf 1 with
  | (none, buf) => return (0, buf)
  | (some ptr, buf) => return (buf.data ptr, buf)

def agBPutc (c : UInt8) : Except Fault (Int × Buffer) :=
  agBWrite alloc buf [c]

/-! ## The invariant and the contents -/

/-- The `CHECK` invariant; the block is never empty, or doubling it would not make it grow. -/
structure Buffer.Ok (buf : Buffer) : Prop where
  rpos_le : buf.rpos ≤ buf.wpos
  wpos_le : buf.wpos ≤ buf.size
  size_pos : 0 < buf.size

def Buffer.contents : List UInt8 := slice buf.data buf.rpos (buf.wpos - buf.rpos)

@[simp] theorem Buffer.contents_length :
    buf.contents.length = buf.wpos - buf.rpos := slice_length _ _ _

theorem Buffer.Ok.check {buf : Buffer} (h : buf.Ok) : buf.check = .ok () :=
  assert_of (by simpa using ⟨h.wpos_le, h.rpos_le.trans h.wpos_le, h.rpos_le⟩)

theorem align_pos {s : ℕ} (h : 0 < s) : 0 < align s := by
  unfold align
  omega

theorem agBNew_ok (halloc : ∀ n, alloc n = true) (fresh : Mem) (size : ℕ) :
    ∃ buf, agBNew alloc fresh size = .ok (some buf) ∧ buf.Ok ∧ buf.contents = [] := by
  refine ⟨⟨align (if size = 0 then 64 else size), 0, 0, fresh⟩, ?_, ⟨le_refl 0, Nat.zero_le _, ?_⟩, rfl⟩
  · simp [agBNew, halloc]
  · apply align_pos
    split <;> omega

theorem agBSize_ok {buf : Buffer} (h : buf.Ok) : agBSize buf = .ok buf.contents.length := by
  rw [agBSize, h.check, buf.contents_length]
  rfl

theorem agBAlign_ok {buf : Buffer} (h : buf.Ok) :
    (agBAlign buf).Ok ∧ (agBAlign buf).contents = buf.contents ∧ (agBAlign buf).size = buf.size := by
  obtain ⟨h1, h2, h3⟩ := h
  unfold agBAlign
  split
  · refine ⟨⟨Nat.zero_le _, by simp only; omega, h3⟩, ?_, rfl⟩
    simp only [Buffer.contents, Nat.sub_zero]
    exact slice_shift _ _ _ _
  · exact ⟨⟨h1, h2, h3⟩, rfl, rfl⟩

theorem agBAlign_rpos {buf : Buffer} (h : buf.rpos ≠ buf.wpos) (hle : buf.rpos ≤ buf.wpos) :
    (agBAlign buf).rpos = 0 := by
  unfold agBAlign
  split
  · rfl
  · omega

/-! ## Reading -/

theorem agBPeek_some {buf : Buffer} (h : buf.Ok) (len : ℕ) (hl : len ≤ buf.contents.length) :
    agBPeek buf len = .ok (some buf.rpos) ∧ slice buf.data buf.rpos len = buf.contents.take len := by
  rw [buf.contents_length] at hl
  refine ⟨?_, (slice_take _ _ _ _ hl).symm⟩
  rw [agBPeek, h.check]
  simp [hl]

theorem agBPeek_none {buf : Buffer} (h : buf.Ok) (len : ℕ) (hl : buf.contents.length < len) :
    agBPeek buf len = .ok none := by
  rw [buf.contents_length] at hl
  rw [agBPeek, h.check]
  simp [hl]

theorem agBRead_some {buf : Buffer} (h : buf.Ok) (len : ℕ) (hl : len ≤ buf.contents.length) :
    ∃ buf', agBRead buf len = .ok (some buf.rpos, buf') ∧ buf'.Ok ∧
      slice buf'.data buf.rpos len = buf.contents.take len ∧ buf'.contents = buf.contents.drop len := by
  rw [buf.contents_length] at hl
  refine ⟨{ buf with rpos := buf.rpos + len }, ?_, ⟨?_, h.wpos_le, h.size_pos⟩,
    (slice_take _ _ _ _ hl).symm, ?_⟩
  · rw [agBRead, h.check]
    simp [hl]
  · have := h.rpos_le
    simp only
    omega
  · simp only [Buffer.contents]
    rw [slice_drop _ _ _ _ hl]
    congr 1
    omega

theorem agBRead_none {buf : Buffer} (h : buf.Ok) (len : ℕ) (hl : buf.contents.length < len) :
    agBRead buf len = .ok (none, buf) := by
  rw [buf.contents_length] at hl
  rw [agBRead, h.check]
  simp [hl]

/-! ## Writing -/

theorem growLoop_ok (nr : ℕ) : ∀ fuel ns, 0 < ns → nr ≤ ns + fuel →
    ∃ ns', growLoop fuel ns nr = .ok ns' ∧ nr ≤ ns' ∧ ns ≤ ns' := by
  intro fuel
  induction fuel with
  | zero =>
    intro ns _ hle
    refine ⟨ns, ?_, by omega, le_refl ns⟩
    rw [growLoop, if_neg (by omega)]
  | succ fuel ih =>
    intro ns hpos hle
    rw [growLoop]
    split
    · obtain ⟨ns', h, h1, h2⟩ := ih (ns * 2) (by omega) (by omega)
      exact ⟨ns', h, h1, by omega⟩
    · exact ⟨ns, rfl, by omega, le_refl ns⟩

theorem agBResize_grow (halloc : ∀ n, alloc n = true) {buf : Buffer} (h : buf.Ok)
    {size : ℕ} (hs : buf.size ≤ size) :
    agBResize alloc buf size = .ok (0, { buf with size := size }) := by
  have h1 := h.wpos_le
  have h2 : ¬ size < buf.wpos - buf.rpos := by omega
  have h3 : ¬ size < buf.wpos := by omega
  have h4 : buf.wpos ≤ size := by omega
  simp [agBResize, h2, h3, h4, halloc]

/-- The outcome of a reservation: `len` bytes at `ptr`, right behind the unread bytes. -/
structure Reserved (buf : Buffer) (len ptr : ℕ) (buf' : Buffer) : Prop where
  ok : buf'.Ok
  rpos_le : buf'.rpos ≤ ptr
  wpos_eq : buf'.wpos = ptr + len
  unread : slice buf'.data buf'.rpos (ptr - buf'.rpos) = buf.contents

theorem agBReserve_ok {buf : Buffer} (h : buf.Ok) (len : ℕ)
    (hfit : buf.wpos - buf.rpos + len ≤ buf.size) :
    ∃ ptr buf', agBReserve buf len = .ok (some ptr, buf') ∧ Reserved buf len ptr buf' := by
  obtain ⟨h1, h2, h3⟩ := h
  -- a buffer with nothing unread is reused from the start
  let b₁ : Buffer := if buf.rpos = buf.wpos then { buf with rpos := 0, wpos := 0 } else buf
  have hb₁ : b₁.Ok ∧ b₁.contents = buf.contents ∧ b₁.size = buf.size := by
    simp only [b₁]
    split
    · next he => exact ⟨⟨le_refl 0, Nat.zero_le _, h3⟩, by simp [Buffer.contents, he], rfl⟩
    · exact ⟨⟨h1, h2, h3⟩, rfl, rfl⟩
  obtain ⟨hok₁, hc₁, hs₁⟩ := hb₁
  let b₂ : Buffer := if b₁.size - b₁.wpos < len then agBAlign b₁ else b₁
  have hb₂ : b₂.Ok ∧ b₂.contents = buf.contents ∧ len ≤ b₂.size - b₂.wpos := by
    have hlen : b₁.wpos - b₁.rpos = buf.wpos - buf.rpos := by
      rw [← b₁.contents_length, hc₁, buf.contents_length]
    simp only [b₂]
    split
    · next ht =>
      obtain ⟨hok, hc, hs⟩ := agBAlign_ok hok₁
      refine ⟨hok, hc.trans hc₁, ?_⟩
      have hl : (agBAlign b₁).wpos - (agBAlign b₁).rpos = buf.wpos - buf.rpos := by
        rw [← Buffer.contents_length, hc, hc₁, buf.contents_length]
      have hne : b₁.rpos ≠ b₁.wpos := by
        intro he
        by_cases hz : buf.rpos = buf.wpos
        · simp only [b₁, hz, if_true] at ht
          omega
        · simp only [b₁, hz, if_false] at he
      rw [agBAlign_rpos hne hok₁.rpos_le] at hl
      rw [hs, hs₁]
      omega
    · next ht => exact ⟨hok₁, hc₁, by omega⟩
  obtain ⟨hok₂, hc₂, hroom⟩ := hb₂
  refine ⟨b₂.wpos, { b₂ with wpos := b₂.wpos + len }, ?_, ⟨?_, ?_, hok₂.size_pos⟩, hok₂.rpos_le, rfl, hc₂⟩
  · have ha : decide (len ≤ b₂.size - b₂.wpos) = true := decide_eq_true hroom
    change (do assert (decide (len ≤ b₂.size - b₂.wpos)); return (some b₂.wpos, { b₂ with wpos := b₂.wpos + len })) = _
    rw [ha]
    rfl
  · have := hok₂.rpos_le
    simp only
    omega
  · have := hok₂.wpos_le
    simp only
    omega

theorem agBBuffer_ok (halloc : ∀ n, alloc n = true) {buf : Buffer} (h : buf.Ok)
    (len : ℕ) : ∃ ptr buf', agBBuffer alloc buf len = .ok (some ptr, buf') ∧ Reserved buf len ptr buf' := by
  obtain ⟨ns, hns, hfit, hge⟩ := growLoop_ok (buf.wpos - buf.rpos + len) (buf.wpos - buf.rpos + len)
    buf.size h.size_pos (by omega)
  have hbig : ({ buf with size := ns } : Buffer).Ok :=
    ⟨h.rpos_le, h.wpos_le.trans hge, h.size_pos.trans_le hge⟩
  obtain ⟨ptr, buf', hr, hres⟩ := agBReserve_ok hbig len hfit
  refine ⟨ptr, buf', ?_, ⟨hres.ok, hres.rpos_le, hres.wpos_eq, hres.unread⟩⟩
  rw [agBBuffer, h.check]
  simp only [hns, ok_bind]
  by_cases he : ns = buf.size
  · subst he
    simpa using hr
  · simp only [ne_eq, he, not_false_eq_true, if_true, agBResize_grow alloc halloc h hge]
    simpa using hr

theorem Reserved.fill {buf buf' : Buffer} {ptr : ℕ} {bs : List UInt8}
    (h : Reserved buf bs.length ptr buf') :
    ∃ buf'', buf'.fill ptr bs = .ok buf'' ∧ buf''.Ok ∧ buf''.contents = buf.contents ++ bs := by
  have h1 := h.wpos_eq
  have h2 := h.ok.wpos_le
  have h3 := h.rpos_le
  refine ⟨{ buf' with data := blit buf'.data ptr bs }, ?_, ⟨h.ok.rpos_le, h.ok.wpos_le, h.ok.size_pos⟩, ?_⟩
  · rw [Buffer.fill, if_pos (by omega)]
  · simp only [Buffer.contents]
    have hsplit : buf'.wpos - buf'.rpos = (ptr - buf'.rpos) + bs.length := by omega
    have hp : buf'.rpos + (ptr - buf'.rpos) = ptr := by omega
    rw [hsplit, slice_add, hp, slice_blit, slice_blit_outside _ _ _ _ _ (by omega), h.unread]
    rfl

theorem agBWrite_ok (halloc : ∀ n, alloc n = true) {buf : Buffer} (h : buf.Ok)
    (bs : List UInt8) :
    ∃ buf', agBWrite alloc buf bs = .ok (0, buf') ∧ buf'.Ok ∧ buf'.contents = buf.contents ++ bs := by
  obtain ⟨ptr, b₁, hb, hres⟩ := agBBuffer_ok alloc halloc h bs.length
  obtain ⟨b₂, hf, hok, hc⟩ := hres.fill
  refine ⟨b₂, ?_, hok, hc⟩
  rw [agBWrite, hb]
  simp [hf]

/-! ## The queue it implements -/

/-- A call on a buffer. In `buffer bs` the caller reserves `bs.length` bytes and fills them. -/
inductive BufferOp
  | write (bs : List UInt8)
  | buffer (bs : List UInt8)
  | read (len : ℕ)
  | peek (len : ℕ)
  | getc
  | putc (c : UInt8)

inductive BufferOut
  | status (ret : Int)
  | bytes (bs : Option (List UInt8))
  | char (c : UInt8)
  deriving DecidableEq

def bufferStep : BufferOp → Except Fault (Buffer × BufferOut)
  | .write bs => do
    let (ret, buf) ← agBWrite alloc buf bs
    return (buf, .status ret)
  | .buffer bs => do
    match ← agBBuffer alloc buf bs.length with
    | (none, buf) => return (buf, .status (-1))
    | (some ptr, buf) => return (← buf.fill ptr bs, .status 0)
  | .read len => do
    match ← agBRead buf len with
    | (none, buf) => return (buf, .bytes none)
    | (some ptr, buf) => return (buf, .bytes (some (slice buf.data ptr len)))
  | .peek len => do
    match ← agBPeek buf len with
    | none => return (buf, .bytes none)
    | some ptr => return (buf, .bytes (some (slice buf.data ptr len)))
  | .getc => do
    let (c, buf) ← agBGetc buf
    return (buf, .char c)
  | .putc c => do
    let (ret, buf) ← agBPutc alloc buf c
    return (buf, .status ret)

structure Fifo where
  queue : List UInt8
  written : ℕ
  read : ℕ
  balance : queue.length + read = written

def Fifo.empty : Fifo := ⟨[], 0, 0, rfl⟩

def Fifo.push (f : Fifo) (bs : List UInt8) : Fifo where
  queue := f.queue ++ bs
  written := f.written + bs.length
  read := f.read
  balance := by
    have := f.balance
    rw [List.length_append]
    omega

def Fifo.pop (f : Fifo) (len : ℕ) (h : len ≤ f.queue.length) : Fifo where
  queue := f.queue.drop len
  written := f.written
  read := f.read + len
  balance := by
    have := f.balance
    rw [List.length_drop]
    omega

def fifoStep (f : Fifo) : BufferOp → Fifo × BufferOut
  | .write bs => (f.push bs, .status 0)
  | .buffer bs => (f.push bs, .status 0)
  | .read len =>
    if h : len ≤ f.queue.length then (f.pop len h, .bytes (some (f.queue.take len)))
    else (f, .bytes none)
  | .peek len =>
    if len ≤ f.queue.length then (f, .bytes (some (f.queue.take len))) else (f, .bytes none)
  | .getc =>
    if h : 1 ≤ f.queue.length then (f.pop 1 h, .char (f.queue.headD 0)) else (f, .char 0)
  | .putc c => (f.push [c], .status 0)

structure Holds (buf : Buffer) (f : Fifo) : Prop where
  ok : buf.Ok
  contents : buf.contents = f.queue

section Refinement
variable {alloc : ℕ → Bool} (halloc : ∀ n, alloc n = true) {buf : Buffer} {f : Fifo}
include halloc

theorem write_holds (h : Holds buf f) (bs : List UInt8) :
    ∃ buf', agBWrite alloc buf bs = .ok (0, buf') ∧ Holds buf' (f.push bs) := by
  obtain ⟨buf', hw, hok, hc⟩ := agBWrite_ok alloc halloc h.ok bs
  exact ⟨buf', hw, hok, by rw [hc, h.contents]; rfl⟩

theorem bufferStep_holds (h : Holds buf f) (op : BufferOp) :
    ∃ buf', bufferStep alloc buf op = .ok (buf', (fifoStep f op).2) ∧ Holds buf' (fifoStep f op).1 := by
  have hc := h.contents
  cases op with
  | write bs =>
    obtain ⟨buf', hw, h'⟩ := write_holds halloc h bs
    exact ⟨buf', by simp [bufferStep, hw, fifoStep], h'⟩
  | buffer bs =>
    obtain ⟨ptr, b₁, hb, hres⟩ := agBBuffer_ok alloc halloc h.ok bs.length
    obtain ⟨b₂, hf, hok, hcs⟩ := hres.fill
    exact ⟨b₂, by simp [bufferStep, hb, hf, fifoStep], hok, by rw [hcs, hc]; rfl⟩
  | read len =>
    by_cases hl : len ≤ f.queue.length
    · obtain ⟨b₁, hr, hok, hbytes, hrest⟩ := agBRead_some h.ok len (by rw [hc]; exact hl)
      rw [hc] at hbytes hrest
      refine ⟨b₁, by simp [bufferStep, hr, fifoStep, hl, hbytes], ?_⟩
      simp only [fifoStep, hl, dite_true]
      exact ⟨hok, hrest⟩
    · have hr := agBRead_none h.ok len (by rw [hc]; omega)
      exact ⟨buf, by simp [bufferStep, hr, fifoStep, hl], by simpa [fifoStep, hl] using h⟩
  | peek len =>
    by_cases hl : len ≤ f.queue.length
    · obtain ⟨hp, hbytes⟩ := agBPeek_some h.ok len (by rw [hc]; exact hl)
      rw [hc] at hbytes
      exact ⟨buf, by simp [bufferStep, hp, fifoStep, hl, hbytes], by simpa [fifoStep, hl] using h⟩
    · have hp := agBPeek_none h.ok len (by rw [hc]; omega)
      exact ⟨buf, by simp [bufferStep, hp, fifoStep, hl], by simpa [fifoStep, hl] using h⟩
  | getc =>
    by_cases hl : 1 ≤ f.queue.length
    · obtain ⟨b₁, hr, hok, hbytes, hrest⟩ := agBRead_some h.ok 1 (by rw [hc]; exact hl)
      rw [hc] at hbytes hrest
      have hhead : b₁.data buf.rpos = f.queue.headD 0 := by
        cases hq : f.queue with
        | nil => simp [hq] at hl
        | cons c q => simpa [hq, slice] using hbytes
      refine ⟨b₁, by simp [bufferStep, agBGetc, hr, fifoStep, hl, hhead], ?_⟩
      simp only [fifoStep, hl, dite_true]
      exact ⟨hok, hrest⟩
    · have hr := agBRead_none h.ok 1 (by rw [hc]; omega)
      exact ⟨buf, by simp [bufferStep, agBGetc, hr, fifoStep, hl], by simpa [fifoStep, hl] using h⟩
  | putc c =>
    obtain ⟨buf', hw, h'⟩ := write_holds halloc h [c]
    exact ⟨buf', by simp [bufferStep, agBPutc, hw, fifoStep], h'⟩

theorem exec_fifo (h : Holds buf f) (ops : List BufferOp) :
    ∃ buf', exec (bufferStep alloc) buf ops = .ok (buf', (specExec fifoStep f ops).2) ∧
      Holds buf' (specExec fifoStep f ops).1 :=
  exec_simulates (R := Holds) (fun _ _ op h => bufferStep_holds halloc h op) ops buf f h

end Refinement

/-- From `_agB_new(n)` on, every history of calls runs without a failing assertion or an access
outside the block; the outputs are those of the queue, `_agB_size` is the number of bytes written
less the number read, and a read or peek past the end returns `NULL` and changes nothing. -/
theorem agB_refines_fifo (halloc : ∀ n, alloc n = true) (fresh : Mem) (n : ℕ)
    (ops : List BufferOp) :
    ∃ buf₀ buf, agBNew alloc fresh n = .ok (some buf₀) ∧
      exec (bufferStep alloc) buf₀ ops = .ok (buf, (specExec fifoStep Fifo.empty ops).2) ∧
      (buf.rpos ≤ buf.wpos ∧ buf.wpos ≤ buf.size) ∧
      buf.contents = (specExec fifoStep Fifo.empty ops).1.queue ∧
      agBSize buf = .ok ((specExec fifoStep Fifo.empty ops).1.written -
        (specExec fifoStep Fifo.empty ops).1.read) ∧
      ∀ len, buf.contents.length < len → agBRead buf len = .ok (none, buf) ∧ agBPeek buf len = .ok none := by
  obtain ⟨buf₀, hnew, hok₀, hc₀⟩ := agBNew_ok alloc halloc fresh n
  obtain ⟨buf, hrun, hok, hc⟩ := exec_fifo halloc (f := Fifo.empty) ⟨hok₀, hc₀⟩ ops
  refine ⟨buf₀, buf, hnew, hrun, ⟨hok.rpos_le, hok.wpos_le⟩, hc, ?_, ?_⟩
  · have hb := (specExec fifoStep Fifo.empty ops).1.balance
    rw [agBSize_ok hok, hc]
    congr 1
    omega
  · intro len hl
    exact ⟨agBRead_none hok len hl, agBPeek_none hok len hl⟩

theorem agB_refines_fifo_three_calls :
    ∃ buf₀ buf, agBNew (fun _ => true) (fun _ => 0) 5 = .ok (some buf₀) ∧
      exec (bufferStep fun _ => true) buf₀ [.write [7, 8], .read 1, .peek 4] =
        .ok (buf, [.status 0, .bytes (some [7]), .bytes none]) ∧ agBSize buf = .ok 1 := by
  obtain ⟨buf₀, buf, hnew, hrun, -, -, hsize, -⟩ :=
    agB_refines_fifo (fun _ => true) (fun _ => rfl) (fun _ => 0) 5 [.write [7, 8], .read 1, .peek 4]
  exact ⟨buf₀, buf, hnew, hrun, hsize⟩

end CServer.Framework
