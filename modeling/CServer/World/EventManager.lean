import CServer.Framework.Buffer

/-! # `world/event_manager.c`: events queued as bytes and handed to watchers

`agEvent_dispatch` writes the id, the length and the bytes of an event into one growing buffer; `agEvent_schedule` reads
them back and calls the watchers of the id one after another with a pointer into that same buffer. A callback may dispatch
and watch again before it returns, so the model stops at every call: `schedule` runs up to the first callback, `ret` from
the return of one to the next.

A watcher is the number of its `cb` and `ctx`. `block` counts the reallocations of the buffer: reading through a pointer
taken before one is a fault. Nothing calls `release_watcher`, so the list of free watchers is empty and left out.

`dispatched`, `called` and `walked` are histories: the events accepted, the callbacks called, and for every event whose loop
is over the watchers the loop went through.
-/
namespace CServer.World
open CServer.Lib CServer.Framework List Function Option

/-! ## The code -/

def maxEventId : ℕ := 1024

def le64 (n : ℕ) : List UInt8 := le32 n ++ le32 (n / 2 ^ 32)

def intToSize (n : ℕ) : ℕ := if n < 2 ^ 31 then n else n + (2 ^ 64 - 2 ^ 32)

/-- An accepted `agEvent_dispatch`, with the watchers its id had then. -/
structure Event where
  id : ℕ
  param : List UInt8
  watchers : List ℕ
  deriving DecidableEq

/-- One call of a watcher: the bytes are those it sees behind `param`, `none` behind `NULL`. -/
structure WatcherCall where
  watcher : ℕ
  id : ℕ
  len : ℕ
  param : Option (List UInt8)
  deriving DecidableEq

/-- The locals of an `agEvent_schedule` that waits for a callback: `param` is a block and an offset
in it, `index` the position of `ite` in the list of its id. -/
structure EventFrame where
  id : ℕ
  len : ℕ
  param : Option (ℕ × ℕ)
  index : ℕ

structure EventManager where
  watchers : ℕ → List ℕ
  buffer : Option Buffer
  block : ℕ
  frames : List EventFrame
  dispatched : List Event
  called : List WatcherCall
  walked : List (List ℕ)

def EventManager.loaded : EventManager := ⟨fun _ => [], none, 0, [], [], [], []⟩

variable (alloc : ℕ → Bool)

/-- `if (eventBuffer == 0) eventBuffer = _agB_new(4096)`; a `NULL` is written through at once. -/
def eventBufferOf (fresh : Mem) : Option Buffer → Except Fault Buffer
  | some buf => .ok buf
  | none =>
    match agBNew alloc fresh 4096 with
    | .error e => .error e
    | .ok none => .error .outOfBounds
    | .ok (some buf) => .ok buf

/-- The three writes of `agEvent_dispatch`; their results are not looked at. -/
def writeEvent (buf : Buffer) (id : ℕ) (param : List UInt8) : Except Fault Buffer := do
  let (_, buf) ← agBWrite alloc buf (le32 id)
  let (_, buf) ← agBWrite alloc buf (le64 param.length)
  let (_, buf) ← agBWrite alloc buf param
  return buf

def agEventDispatch (fresh : Mem) (s : EventManager) (id : ℕ) (param : List UInt8) :
    Except Fault (Int × EventManager) := do
  if maxEventId ≤ id then return (-1, s)
  let buf ← eventBufferOf alloc fresh s.buffer
  let buf' ← writeEvent alloc buf id param
  return (0, { s with
    buffer := some buf'
    block := if buf'.size = buf.size then s.block else s.block + 1
    dispatched := s.dispatched ++ [⟨id, param, s.watchers id⟩] })

variable (s : EventManager)

def agEventWatch (id w : ℕ) : Int × EventManager :=
  if maxEventId ≤ id then (-1, s)
  else (0, { s with watchers := update s.watchers id (s.watchers id ++ [w]) })

/-- The three reads of one round of `agEvent_schedule`. A `NULL` in place of the id or of the length
is read through, and an id past the table selects no list. -/
def readEvent (block : ℕ) (buf : Buffer) : Except Fault (EventFrame × Buffer) := do
  match ← agBRead buf 4 with
  | (none, _) => .error .outOfBounds
  | (some p, buf) =>
    let id := ofLe32 (slice buf.data p 4)
    match ← agBRead buf 8 with
    | (none, _) => .error .outOfBounds
    | (some q, buf) =>
      let len := intToSize (ofLe32 (slice buf.data q 4))
      let (param, buf) ← agBRead buf len
      if maxEventId ≤ id then .error .outOfBounds
      else return (⟨id, len, param.map fun ptr => (block, ptr), 0⟩, buf)

variable (f : EventFrame)

/-- The bytes a watcher finds behind the frame's `param`. -/
def EventManager.receive : Except Fault (Option (List UInt8)) :=
  match f.param, s.buffer with
  | none, _ => .ok none
  | some (_, _), none => .error .outOfBounds
  | some (block, ptr), some buf =>
    if f.len = 0 then .ok (some [])
    else if block = s.block then .ok (some (slice buf.data ptr f.len))
    else .error .outOfBounds

/-- `ite->cb(id, param, len, ite->ctx)`, up to the start of the callback. -/
def EventManager.call (w : ℕ) : Except Fault EventManager := do
  let param ← s.receive f
  return { s with frames := f :: s.frames, called := s.called ++ [⟨w, f.id, f.len, param⟩] }

/-- The `while` loop of `agEvent_schedule`, up to the next callback or to its end. -/
def scheduleLoop : ℕ → EventManager → Except Fault EventManager
  | 0, _ => .error .diverges
  | fuel + 1, s =>
    match s.buffer with
    | none => .ok s
    | some buf => do
      if (← agBSize buf) = 0 then return s
      let (f, buf) ← readEvent s.block buf
      match s.watchers f.id with
      | [] => scheduleLoop fuel { s with buffer := some buf, walked := s.walked ++ [[]] }
      | w :: _ => EventManager.call { s with buffer := some buf } f w

def EventManager.unread : List UInt8 :=
  match s.buffer with
  | none => []
  | some buf => buf.contents

/-- `agEvent_schedule`. Every round reads at least the id and the length. -/
def agEventSchedule : Except Fault EventManager :=
  scheduleLoop (s.unread.length + 1) s

/-- The callback in progress returns: `ite = ite->next`, and on with the loops. -/
def callbackReturn : Except Fault EventManager :=
  match s.frames with
  | [] => .ok s
  | f :: rest =>
    match (s.watchers f.id)[f.index + 1]? with
    | some w => EventManager.call { s with frames := rest } { f with index := f.index + 1 } w
    | none => agEventSchedule { s with frames := rest, walked := s.walked ++ [s.watchers f.id] }

inductive EventAct
  | dispatch (alloc : ℕ → Bool) (fresh : Mem) (id : ℕ) (param : List UInt8)
  | watch (id w : ℕ)
  | schedule
  | ret

def eventStep : EventAct → Except Fault EventManager
  | .dispatch alloc fresh id param => do
    let (_, s) ← agEventDispatch alloc fresh s id param
    return s
  | .watch id w => .ok (agEventWatch s id w).2
  | .schedule => agEventSchedule s
  | .ret => callbackReturn s

/-! ## What delivery means -/

def Event.call (e : Event) (w : ℕ) : WatcherCall := ⟨w, e.id, e.param.length, some e.param⟩

/-- The calls made when the events `es` are handed, in order, each to its list of watchers. -/
def callsOf (es : List Event) (wss : List (List ℕ)) : List WatcherCall :=
  (List.zipWith (fun e ws => ws.map e.call) es wss).flatten

def EventManager.visits : List (List ℕ) :=
  s.walked ++ s.frames.map fun f => (s.watchers f.id).take (f.index + 1)

/-- The loop over the watchers of `e` went through `ws`: at least those registered when it was
dispatched, at most those registered by now. -/
def EventManager.Served (e : Event) (ws : List ℕ) : Prop :=
  e.watchers <+: ws ∧ ws <+: s.watchers e.id

/-- Every callback so far was called for an event in dispatch order, once for each of its watchers in
the order of their registration, and with exactly what was dispatched. -/
structure EventManager.Delivered (s : EventManager) : Prop where
  started : s.visits.length ≤ s.dispatched.length
  called : s.called = callsOf s.dispatched s.visits
  served : List.Forall₂ s.Served (s.dispatched.take s.walked.length) s.walked

/-! ## When the bytes of the event in progress survive -/

/-- `t` bytes more in the buffer do not touch the `n` bytes at `ptr`: with nothing unread they go to
the start of the block; where they fit they go behind the unread bytes; otherwise the unread bytes move
to the start first. Growing the block is never harmless. -/
def Spares (buf : Buffer) (ptr n t : ℕ) : Prop :=
  if buf.rpos = buf.wpos then t ≤ ptr
  else if t ≤ buf.size - buf.wpos then buf.wpos + t ≤ ptr ∨ ptr + n ≤ buf.wpos
  else buf.wpos - buf.rpos + t ≤ ptr

/-- What the current callback was called with is what a further watcher would be called with now. -/
def EventManager.Intact : Prop :=
  ∃ c, s.called.getLast? = some c ∧ s.receive f = .ok c.param

def EventManager.more : Prop := f.index + 1 < (s.watchers f.id).length

instance (buf : Buffer) (ptr n t : ℕ) : Decidable (Spares buf ptr n t) :=
  inferInstanceAs (Decidable (if buf.rpos = buf.wpos then t ≤ ptr
    else if t ≤ buf.size - buf.wpos then buf.wpos + t ≤ ptr ∨ ptr + n ≤ buf.wpos
    else buf.wpos - buf.rpos + t ≤ ptr))

instance   : Decidable (s.more f) :=
  inferInstanceAs (Decidable (f.index + 1 < (s.watchers f.id).length))

/-- A dispatch finds memory and a length that fits in an `int`; made from a callback while watchers
are left, it spares the bytes they are still to get. A callback watches the id of its own event only
while these bytes are intact, and schedules only when nothing is unread; only a callback returns. -/
def Careful : EventAct → Prop
  | .dispatch alloc _ id param => id < maxEventId → (∀ n, alloc n = true) ∧ param.length < 2 ^ 31 ∧
      ∀ f ∈ s.frames, s.more f → 0 < f.len →
        ∀ buf ∈ s.buffer, ∀ p ∈ f.param, Spares buf p.2 f.len (12 + param.length)
  | .watch id _ => ∀ f ∈ s.frames, f.id = id → s.Intact f
  | .schedule => s.frames = [] ∨ s.unread = []
  | .ret => s.frames ≠ []

/-! ## Writing beside the bytes of the event in progress -/

def placed (buf : Buffer) (bs : List UInt8) : Buffer :=
  let b₁ := if buf.rpos = buf.wpos then { buf with rpos := 0, wpos := 0 } else buf
  let b₂ := if b₁.size - b₁.wpos < bs.length then agBAlign b₁ else b₁
  { b₂ with wpos := b₂.wpos + bs.length, data := blit b₂.data b₂.wpos bs }

theorem growLoop_enough {fuel ns nr : ℕ} (h : nr ≤ ns) : growLoop fuel ns nr = .ok ns := by
  cases fuel with
  | zero => rw [growLoop, if_neg (by omega)]
  | succ fuel => rw [growLoop, if_neg (by omega)]

theorem agBWrite_placed {buf : Buffer} (h : buf.Ok) (bs : List UInt8)
    (hfit : buf.wpos - buf.rpos + bs.length ≤ buf.size) :
    agBWrite alloc buf bs = .ok (0, placed buf bs) := by
  obtain ⟨ptr, b₁, hr, hres⟩ := agBReserve_ok h bs.length hfit
  obtain ⟨b₂, hf, -, -⟩ := hres.fill
  have hbuf : agBBuffer alloc buf bs.length = agBReserve buf bs.length := by
    rw [agBBuffer, h.check]
    simp only [growLoop_enough hfit, ok_bind, ne_eq, not_true_eq_false, if_false]
  rw [agBWrite, hbuf, hr]
  simp only [ok_bind, hf, pure_eq_ok]
  -- the reservation and the copy are those of `placed`
  obtain ⟨-, -, hr'⟩ := bind_ok_iff.mp hr
  obtain ⟨hptr, hb₁⟩ := ok_pair_inj hr'
  rw [Buffer.fill] at hf
  split at hf
  · rw [← Except.ok.inj hf, ← hb₁, ← some.inj hptr]
    rfl
  · exact absurd hf (by simp)

variable {buf : Buffer}

theorem placed_empty {bs : List UInt8} (he : buf.rpos = buf.wpos) (hk : bs.length ≤ buf.size) :
    placed buf bs = { buf with rpos := 0, wpos := bs.length, data := blit buf.data 0 bs } := by
  have hk' : ¬ buf.size - 0 < bs.length := by omega
  simp only [placed, he, if_true, hk', if_false, Nat.zero_add]

theorem placed_behind {bs : List UInt8} (he : buf.rpos ≠ buf.wpos)
    (hk : bs.length ≤ buf.size - buf.wpos) :
    placed buf bs = { buf with wpos := buf.wpos + bs.length, data := blit buf.data buf.wpos bs } := by
  have hk' : ¬ buf.size - buf.wpos < bs.length := by omega
  simp only [placed, he, if_false, hk']

theorem placed_moved {bs : List UInt8} (h : buf.Ok) (he : buf.rpos ≠ buf.wpos) (hr : 0 < buf.rpos)
    (hk : buf.size - buf.wpos < bs.length) :
    placed buf bs = { buf with
      rpos := 0
      wpos := buf.wpos - buf.rpos + bs.length
      data := blit (shift buf.data 0 buf.rpos (buf.wpos - buf.rpos)) (buf.wpos - buf.rpos) bs } := by
  have hlt : 0 < buf.rpos ∧ buf.rpos < buf.wpos := ⟨hr, lt_of_le_of_ne h.rpos_le he⟩
  simp only [placed, he, if_false, hk, if_true, agBAlign, hlt, and_self]

/-- Bytes handed out at `ptr` and read past, with `t` bytes still to be written beside them. -/
structure Beside (buf : Buffer) (ptr n t : ℕ) : Prop where
  ok : buf.Ok
  room : ptr + n ≤ buf.size
  behind : buf.rpos = 0 ∨ ptr + n ≤ buf.rpos
  spares : Spares buf ptr n t

theorem Beside.fits {ptr n t : ℕ} (h : Beside buf ptr n t) :
    buf.wpos - buf.rpos + t ≤ buf.size := by
  have hs := h.spares
  have h1 := h.room
  have h2 := h.ok.wpos_le
  unfold Spares at hs
  split at hs
  · omega
  · split at hs
    · omega
    · omega

theorem shift_beyond (m : Mem) (src n q k : ℕ) (h : n ≤ q) : slice (shift m 0 src n) q k = slice m q k := by
  apply slice_congr
  intro i _
  have hi : ¬ (0 ≤ q + i ∧ q + i < 0 + n) := by omega
  simp only [shift, hi, if_false]

theorem Beside.write {ptr n t : ℕ} {bs : List UInt8} (h : Beside buf ptr n (bs.length + t))
    (hne : 0 < bs.length ∨ buf.rpos ≠ buf.wpos) :
    Beside (placed buf bs) ptr n t ∧ (placed buf bs).size = buf.size ∧
      (placed buf bs).rpos ≠ (placed buf bs).wpos ∧
      slice (placed buf bs).data ptr n = slice buf.data ptr n := by
  have hfit := h.fits
  have h1 := h.ok.rpos_le
  have h2 := h.ok.wpos_le
  have h3 := h.room
  have h4 := h.behind
  have hs := h.spares
  unfold Spares at hs
  by_cases he : buf.rpos = buf.wpos
  · rw [if_pos he] at hs
    rw [placed_empty he (by omega)]
    have hbs : 0 < bs.length := hne.resolve_right (fun hc => hc he)
    refine ⟨⟨⟨Nat.zero_le _, by simp only; omega, h.ok.size_pos⟩, h3, .inl rfl, ?_⟩, rfl, by simp only; omega,
      slice_blit_outside _ _ _ _ _ (by omega)⟩
    unfold Spares
    simp only
    rw [if_neg (by omega), if_pos (by omega)]
    omega
  · rw [if_neg he] at hs
    by_cases hk : bs.length ≤ buf.size - buf.wpos
    · rw [placed_behind he hk]
      by_cases ht : bs.length + t ≤ buf.size - buf.wpos
      · rw [if_pos ht] at hs
        refine ⟨⟨⟨by simp only; omega, by simp only; omega, h.ok.size_pos⟩, h3, h4, ?_⟩, rfl, by simp only; omega,
          slice_blit_outside _ _ _ _ _ (by omega)⟩
        unfold Spares
        simp only
        rw [if_neg (by omega), if_pos (by omega)]
        omega
      · -- a later write moves the unread bytes, so the event in progress lies below them
        rw [if_neg ht] at hs
        refine ⟨⟨⟨by simp only; omega, by simp only; omega, h.ok.size_pos⟩, h3, h4, ?_⟩, rfl, by simp only; omega,
          slice_blit_outside _ _ _ _ _ (by omega)⟩
        unfold Spares
        simp only
        rw [if_neg (by omega), if_neg (by omega)]
        omega
    · rw [if_neg (by omega)] at hs
      rw [placed_moved h.ok he (by omega) (by omega)]
      refine ⟨⟨⟨Nat.zero_le _, by simp only; omega, h.ok.size_pos⟩, h3, .inl rfl, ?_⟩, rfl, by simp only; omega, ?_⟩
      · unfold Spares
        simp only
        rw [if_neg (by omega), if_pos (by omega)]
        omega
      · simp only
        rw [slice_blit_outside _ _ _ _ _ (by omega), shift_beyond _ _ _ _ _ (by omega)]

/-- What the positions of the buffer may do under writes. -/
structure Grown (buf buf' : Buffer) : Prop where
  size_le : buf.size ≤ buf'.size
  rpos : buf'.rpos = 0 ∨ buf'.rpos = buf.rpos

theorem Grown.trans {b₁ b₂ b₃ : Buffer} (h : Grown b₁ b₂) (h' : Grown b₂ b₃) : Grown b₁ b₃ := by
  refine ⟨h.size_le.trans h'.size_le, ?_⟩
  have h1 := h.rpos
  have h2 := h'.rpos
  omega

theorem agBAlign_grown (buf : Buffer) : Grown buf (agBAlign buf) := by
  unfold agBAlign
  split
  · exact ⟨le_refl _, .inl rfl⟩
  · exact ⟨le_refl _, .inr rfl⟩

theorem placed_grown (buf : Buffer) (bs : List UInt8) : Grown buf (placed buf bs) := by
  let b₁ : Buffer := if buf.rpos = buf.wpos then { buf with rpos := 0, wpos := 0 } else buf
  have h₁ : Grown buf b₁ := by
    simp only [b₁]
    split
    · exact ⟨le_refl _, .inl rfl⟩
    · exact ⟨le_refl _, .inr rfl⟩
  let b₂ : Buffer := if b₁.size - b₁.wpos < bs.length then agBAlign b₁ else b₁
  have h₂ : Grown b₁ b₂ := by
    simp only [b₂]
    split
    · exact agBAlign_grown b₁
    · exact ⟨le_refl _, .inr rfl⟩
  have h := h₁.trans h₂
  exact ⟨h.size_le, h.rpos⟩

theorem agBWrite_grown (halloc : ∀ n, alloc n = true) {buf : Buffer} (h : buf.Ok)
    (bs : List UInt8) :
    ∃ ns, buf.size ≤ ns ∧ agBWrite alloc buf bs = .ok (0, placed { buf with size := ns } bs) := by
  obtain ⟨ns, hns, hfit, hge⟩ := growLoop_ok (buf.wpos - buf.rpos + bs.length) (buf.wpos - buf.rpos + bs.length)
    buf.size h.size_pos (by omega)
  have hbig : ({ buf with size := ns } : Buffer).Ok :=
    ⟨h.rpos_le, h.wpos_le.trans hge, h.size_pos.trans_le hge⟩
  refine ⟨ns, hge, ?_⟩
  rw [← agBWrite_placed alloc hbig bs hfit]
  have hb : agBBuffer alloc buf bs.length = agBBuffer alloc { buf with size := ns } bs.length := by
    rw [agBBuffer, agBBuffer, h.check, hbig.check]
    simp only [hns, growLoop_enough hfit, ok_bind, ne_eq, not_true_eq_false, if_false]
    by_cases he : ns = buf.size
    · subst he
      simp only [not_true_eq_false, if_false]
    · simp only [he, not_false_eq_true, if_true, agBResize_grow alloc halloc h hge]
      rfl
  rw [agBWrite, agBWrite, hb]

/-! ## Writing and reading one event -/

def Event.encode (e : Event) : List UInt8 := le32 e.id ++ le64 e.param.length ++ e.param

theorem le64_length (n : ℕ) : (le64 n).length = 8 := rfl

theorem agBWrite_event (halloc : ∀ n, alloc n = true) {buf : Buffer} (h : buf.Ok)
    (bs : List UInt8) :
    ∃ buf', agBWrite alloc buf bs = .ok (0, buf') ∧ buf'.Ok ∧ buf'.contents = buf.contents ++ bs ∧
      Grown buf buf' := by
  obtain ⟨buf', hw, hok, hc⟩ := agBWrite_ok alloc halloc h bs
  obtain ⟨ns, hge, hw'⟩ := agBWrite_grown alloc halloc h bs
  have he : buf' = placed { buf with size := ns } bs := (ok_pair_inj (hw.symm.trans hw')).2
  have hg := placed_grown { buf with size := ns } bs
  rw [← he] at hg
  exact ⟨buf', hw, hok, hc, hge.trans hg.size_le, hg.rpos⟩

theorem writeEvent_ok (halloc : ∀ n, alloc n = true) {buf : Buffer} (h : buf.Ok)
    (e : Event) :
    ∃ buf', writeEvent alloc buf e.id e.param = .ok buf' ∧ buf'.Ok ∧
      buf'.contents = buf.contents ++ e.encode ∧ Grown buf buf' := by
  obtain ⟨b₁, hw₁, hok₁, hc₁, hg₁⟩ := agBWrite_event alloc halloc h (le32 e.id)
  obtain ⟨b₂, hw₂, hok₂, hc₂, hg₂⟩ := agBWrite_event alloc halloc hok₁ (le64 e.param.length)
  obtain ⟨b₃, hw₃, hok₃, hc₃, hg₃⟩ := agBWrite_event alloc halloc hok₂ e.param
  refine ⟨b₃, ?_, hok₃, ?_, (hg₁.trans hg₂).trans hg₃⟩
  · simp only [writeEvent, hw₁, hw₂, hw₃, ok_bind, pure_eq_ok]
  · rw [hc₃, hc₂, hc₁, Event.encode, append_assoc, append_assoc, append_assoc]

theorem writeEvent_beside {buf : Buffer} {ptr n : ℕ} (e : Event)
    (h : Beside buf ptr n (12 + e.param.length)) :
    ∃ buf', writeEvent alloc buf e.id e.param = .ok buf' ∧ buf'.size = buf.size ∧
      slice buf'.data ptr n = slice buf.data ptr n := by
  have e₁ : 12 + e.param.length = (le32 e.id).length + (8 + e.param.length) := by rw [le32_length]; omega
  have hf := h.fits
  rw [e₁] at h
  obtain ⟨h₁, hs₁, hne₁, hd₁⟩ := h.write (.inl (by rw [le32_length]; omega))
  have e₂ : 8 + e.param.length = (le64 e.param.length).length + (e.param.length + 0) := by rw [le64_length]; omega
  have hf₁ := h₁.fits
  rw [e₂] at h₁
  obtain ⟨h₂, hs₂, hne₂, hd₂⟩ := h₁.write (.inl (by rw [le64_length]; omega))
  have hf₂ := h₂.fits
  obtain ⟨-, hs₃, -, hd₃⟩ := h₂.write (.inr hne₂)
  refine ⟨_, ?_, hs₃.trans (hs₂.trans hs₁), hd₃.trans (hd₂.trans hd₁)⟩
  rw [writeEvent, agBWrite_placed alloc h.ok _ (by rw [le32_length]; omega)]
  simp only [ok_bind]
  rw [agBWrite_placed alloc h₁.ok _ (by rw [le64_length]; omega)]
  simp only [ok_bind]
  rw [agBWrite_placed alloc h₂.ok _ (by omega)]
  rfl

theorem agBRead_eq (h : buf.Ok) {len : ℕ} (hl : len ≤ buf.contents.length) :
    agBRead buf len = .ok (some buf.rpos, { buf with rpos := buf.rpos + len }) := by
  rw [buf.contents_length] at hl
  rw [agBRead, h.check]
  simp [hl]

theorem slice_contents (a n : ℕ) (h : a + n ≤ buf.contents.length) :
    slice buf.data (buf.rpos + a) n = (buf.contents.drop a).take n := by
  rw [buf.contents_length] at h
  rw [Buffer.contents, slice_drop _ _ _ _ (by omega), slice_take _ _ _ _ (by omega)]

theorem intToSize_of_lt {n : ℕ} (h : n < 2 ^ 31) : intToSize n = n := if_pos h

theorem readEvent_ok (h : buf.Ok) (block : ℕ) {e : Event} {rest : List UInt8}
    (hid : e.id < maxEventId) (hlen : e.param.length < 2 ^ 31) (hc : buf.contents = e.encode ++ rest) :
    ∃ buf', readEvent block buf = .ok (⟨e.id, e.param.length, some (block, buf.rpos + 12), 0⟩, buf') ∧
      buf'.Ok ∧ buf'.contents = rest ∧ buf'.rpos = buf.rpos + 12 + e.param.length ∧
      slice buf'.data (buf.rpos + 12) e.param.length = e.param := by
  have hl : buf.contents.length = 12 + e.param.length + rest.length := by
    simp only [hc, Event.encode, length_append, le32_length, le64_length]
  have hlc := buf.contents_length
  have h1 := h.rpos_le
  have ok₁ : ({ buf with rpos := buf.rpos + 4 } : Buffer).Ok := ⟨by simp only; omega, h.wpos_le, h.size_pos⟩
  have ok₂ : ({ buf with rpos := buf.rpos + 4 + 8 } : Buffer).Ok := ⟨by simp only; omega, h.wpos_le, h.size_pos⟩
  have r₁ := @agBRead_eq buf h 4 (by omega)
  have r₂ := @agBRead_eq _ ok₁ 8 (by simp only [Buffer.contents_length]; omega)
  have r₃ := @agBRead_eq _ ok₂ e.param.length (by simp only [Buffer.contents_length]; omega)
  -- the three slices are the three parts of the encoding
  have s₁ : slice buf.data buf.rpos 4 = le32 e.id := by
    have hs := @slice_contents buf 0 4 (by omega)
    rw [Nat.add_zero] at hs
    rw [hs, hc]
    rfl
  have s₂ : slice buf.data (buf.rpos + 4) 4 = le32 e.param.length := by
    rw [slice_contents 4 4 (by omega), hc]
    rfl
  have s₃ : slice buf.data (buf.rpos + 12) e.param.length = e.param := by
    rw [slice_contents 12 _ (by omega), hc]
    have hd : (e.encode ++ rest).drop 12 = e.param ++ rest := rfl
    rw [hd, take_left]
  have hid' : ofLe32 (le32 e.id) = e.id := ofLe32_le32 (by unfold maxEventId at hid; omega)
  have hlen' : intToSize (ofLe32 (le32 e.param.length)) = e.param.length := by
    rw [ofLe32_le32 (by omega), intToSize_of_lt hlen]
  refine ⟨{ buf with rpos := buf.rpos + 4 + 8 + e.param.length }, ?_, ?_, ?_, by simp only, s₃⟩
  · rw [readEvent, r₁]
    simp only [ok_bind, r₂, s₁, s₂, hid', hlen', r₃, map_some, pure_eq_ok]
    rw [if_neg (by omega)]
  · exact ⟨by simp only; omega, h.wpos_le, h.size_pos⟩
  · have hdrop : (e.encode ++ rest).drop (12 + e.param.length) = rest := by
      apply drop_left'
      simp only [Event.encode, length_append, le32_length, le64_length]
    rw [← hdrop, ← hc, Buffer.contents, Buffer.contents, slice_drop _ _ _ _ (by omega)]
    simp only
    congr 1
    · omega
    · omega

/-! ## The invariant -/

/-- The part of the invariant that does not look at the callback in progress: the unread bytes are
the pending events, the events `done` have been handed out. -/
structure Standing (s : EventManager) (done pending : List Event) : Prop where
  ok : ∀ buf ∈ s.buffer, buf.Ok
  unread : s.unread = pending.flatMap Event.encode
  sound : ∀ e ∈ pending, e.id < maxEventId ∧ e.param.length < 2 ^ 31 ∧ e.watchers <+: s.watchers e.id
  served : List.Forall₂ s.Served done s.walked

structure Quiet (s : EventManager) (done pending : List Event) : Prop extends Standing s done pending where
  frames : s.frames = []
  dispatched : s.dispatched = done ++ pending
  called : s.called = callsOf done s.walked

/-- The callback of the watcher at `index` for the event `e` is in progress, its bytes at `ptr`. -/
structure InCall (s : EventManager) (done : List Event) (e : Event) (pending : List Event)
    (block ptr index : ℕ) : Prop extends Standing s done pending where
  frames : s.frames = [⟨e.id, e.param.length, some (block, ptr), index⟩]
  dispatched : s.dispatched = done ++ e :: pending
  watchers : e.watchers <+: s.watchers e.id
  reached : index < (s.watchers e.id).length
  called : s.called = callsOf done s.walked ++ ((s.watchers e.id).take (index + 1)).map e.call
  placed : ∃ buf, s.buffer = some buf ∧ ptr + e.param.length ≤ buf.size ∧
    (buf.rpos = 0 ∨ ptr + e.param.length ≤ buf.rpos)
  intact : index + 1 < (s.watchers e.id).length →
    s.receive ⟨e.id, e.param.length, some (block, ptr), index⟩ = .ok (some e.param)

def EventManager.Inv : Prop :=
  (∃ done pending, Quiet s done pending) ∨
    ∃ done e pending block ptr index, InCall s done e pending block ptr index

theorem callsOf_snoc {es : List Event} {wss : List (List ℕ)} (h : es.length = wss.length) (e : Event) (ws : List ℕ) :
    callsOf (es ++ [e]) (wss ++ [ws]) = callsOf es wss ++ ws.map e.call := by
  unfold callsOf
  rw [zipWith_append h, flatten_append]
  simp only [zipWith_cons_cons, zipWith_nil_left, flatten_cons, flatten_nil, append_nil]

theorem callsOf_take {es es' : List Event} {wss : List (List ℕ)} (h : es.length = wss.length) :
    callsOf (es ++ es') wss = callsOf es wss := by
  unfold callsOf
  have hz := @zipWith_append _ _ _ (fun (e : Event) ws => List.map e.call ws) es es' wss [] h
  rw [append_nil] at hz
  rw [hz, zipWith_nil_right, append_nil]

theorem Quiet.delivered {s : EventManager} {done pending : List Event} (h : Quiet s done pending) : s.Delivered := by
  have hlen := h.served.length_eq
  have hv : s.visits = s.walked := by
    rw [EventManager.visits, h.frames, map_nil, append_nil]
  refine ⟨?_, ?_, ?_⟩
  · rw [hv, h.dispatched, length_append]
    omega
  · rw [hv, h.dispatched, callsOf_take hlen, h.called]
  · rw [h.dispatched, ← hlen, take_left]
    exact h.served

theorem InCall.delivered {s : EventManager} {done : List Event} {e : Event} {pending : List Event}
    {block ptr index : ℕ} (h : InCall s done e pending block ptr index) : s.Delivered := by
  have hlen := h.served.length_eq
  have hv : s.visits = s.walked ++ [(s.watchers e.id).take (index + 1)] := by
    rw [EventManager.visits, h.frames, map_singleton]
  refine ⟨?_, ?_, ?_⟩
  · rw [hv, h.dispatched, length_append, length_append, length_singleton, length_cons]
    omega
  · have hd : s.dispatched = (done ++ [e]) ++ pending := by
      rw [h.dispatched, append_assoc, singleton_append]
    rw [hv, hd, callsOf_take (by simp only [length_append, length_singleton]; omega),
      callsOf_snoc hlen, h.called]
  · rw [h.dispatched, ← hlen, take_left]
    exact h.served

theorem EventManager.Inv.delivered {s : EventManager} (h : s.Inv) : s.Delivered := by
  rcases h with ⟨_, _, hq⟩ | ⟨_, _, _, _, _, _, hc⟩
  · exact hq.delivered
  · exact hc.delivered

/-! ## One step -/

theorem Standing.call {s : EventManager} {done pending : List Event} (h : Standing s done pending) {e : Event}
    {buf : Buffer} {block ptr index w : ℕ} (hframes : s.frames = []) (hbuf : s.buffer = some buf)
    (hd : s.dispatched = done ++ e :: pending) (hws : e.watchers <+: s.watchers e.id)
    (hw : (s.watchers e.id)[index]? = some w)
    (hc : s.called = callsOf done s.walked ++ ((s.watchers e.id).take index).map e.call)
    (hroom : ptr + e.param.length ≤ buf.size) (hbehind : buf.rpos = 0 ∨ ptr + e.param.length ≤ buf.rpos)
    (hr : s.receive ⟨e.id, e.param.length, some (block, ptr), index⟩ = .ok (some e.param)) :
    ∃ s', s.call ⟨e.id, e.param.length, some (block, ptr), index⟩ w = .ok s' ∧
      InCall s' done e pending block ptr index := by
  refine ⟨{ s with
    frames := ⟨e.id, e.param.length, some (block, ptr), index⟩ :: s.frames
    called := s.called ++ [⟨w, e.id, e.param.length, some e.param⟩] }, ?_, ?_⟩
  · rw [EventManager.call, hr]
    rfl
  · obtain ⟨hlt, hget⟩ := List.getElem?_eq_some_iff.mp hw
    exact {
      ok := h.ok
      unread := h.unread
      sound := h.sound
      served := h.served
      frames := by simp only [hframes]
      dispatched := hd
      watchers := hws
      reached := hlt
      called := by
        simp only [hc, take_add_one, hw, map_append, append_assoc]
        rfl
      placed := ⟨buf, hbuf, hroom, hbehind⟩
      intact := fun _ => hr }

def Paused : Prop :=
  (∃ done, Quiet s done []) ∨ ∃ done e pending block ptr index, InCall s done e pending block ptr index

theorem receive_of {s : EventManager} {buf : Buffer} {e : Event} {ptr : ℕ} (index : ℕ) (hbuf : s.buffer = some buf)
    (hd : slice buf.data ptr e.param.length = e.param) :
    s.receive ⟨e.id, e.param.length, some (s.block, ptr), index⟩ = .ok (some e.param) := by
  unfold EventManager.receive
  simp only [hbuf, if_true, hd]
  split
  · next h0 => rw [length_eq_zero_iff.mp h0]
  · rfl

theorem unread_some {s : EventManager} {buf : Buffer} (h : s.buffer = some buf) : s.unread = buf.contents := by
  rw [EventManager.unread, h]

theorem scheduleLoop_paused (pending : List Event) : ∀ (fuel : ℕ) (s : EventManager) (done : List Event),
    pending.length < fuel → Quiet s done pending → ∃ s', scheduleLoop fuel s = .ok s' ∧ Paused s' := by
  induction pending with
  | nil =>
    intro fuel s done hf hq
    obtain ⟨fuel, rfl⟩ := exists_succ_of_lt hf
    refine ⟨s, ?_, .inl ⟨done, hq⟩⟩
    unfold scheduleLoop
    cases hb : s.buffer with
    | none => rfl
    | some buf =>
      have hc : buf.contents = [] := (unread_some hb).symm.trans hq.unread
      simp only [agBSize_ok (hq.ok buf hb), hc, ok_bind, length_nil, if_true, pure_eq_ok]
  | cons e pending ih =>
    intro fuel s done hf hq
    obtain ⟨fuel, rfl⟩ := exists_succ_of_lt hf
    have hu := hq.unread
    rw [flatMap_cons] at hu
    cases hb : s.buffer with
    | none =>
      rw [EventManager.unread, hb] at hu
      simp [Event.encode, le32] at hu
    | some buf =>
      rw [unread_some hb] at hu
      have hbok := hq.ok buf hb
      obtain ⟨hid, hlen, hws⟩ := hq.sound e mem_cons_self
      obtain ⟨buf', hr, hok', hc', hrpos, hd⟩ := readEvent_ok hbok s.block hid hlen hu
      have hne : ¬ buf.contents.length = 0 := by
        rw [hu]
        simp [Event.encode, le32]
      have hstand : Standing { s with buffer := some buf' } done pending :=
        { ok := fun b hbm => by rw [← some.inj hbm]; exact hok'
          unread := hc'
          sound := fun e' he' => hq.sound e' (mem_cons_of_mem e he')
          served := hq.served }
      unfold scheduleLoop
      simp only [hb, agBSize_ok hbok, hne, hr, ok_bind, if_false]
      cases hl : s.watchers e.id with
      | nil =>
        simp only
        apply ih fuel _ (done ++ [e]) (by simp only [length_cons] at hf; omega)
        have he : e.watchers = [] := by
          rw [hl] at hws
          exact prefix_nil.mp hws
        exact {
          ok := hstand.ok
          unread := hstand.unread
          sound := hstand.sound
          served := rel_append hq.served
            (.cons ⟨by rw [he], nil_prefix⟩ .nil)
          frames := hq.frames
          dispatched := by rw [append_assoc]; exact hq.dispatched
          called := by
            simp only
            rw [callsOf_snoc hq.served.length_eq, map_nil, append_nil]
            exact hq.called }
      | cons w ws =>
        simp only
        obtain ⟨s', hs', hin⟩ := @Standing.call _ _ _ hstand e buf' s.block (buf.rpos + 12) 0 w hq.frames rfl
          hq.dispatched hws (by simp only [hl]; rfl)
          (by simp only [take_zero, map_nil, append_nil]; exact hq.called)
          (by have := hok'.rpos_le; have := hok'.wpos_le; omega) (by omega)
          (@receive_of { s with buffer := some buf' } buf' e _ 0 rfl hd)
        exact ⟨s', hs', .inr ⟨done, e, pending, s.block, buf.rpos + 12, 0, hin⟩⟩

theorem length_le_encode (es : List Event) : es.length ≤ (es.flatMap Event.encode).length := by
  induction es with
  | nil => exact le_refl 0
  | cons e es ih =>
    have h : 0 < e.encode.length := by simp [Event.encode, le32]
    rw [flatMap_cons, length_append, length_cons]
    omega

theorem agEventSchedule_paused {s : EventManager} {done pending : List Event} (h : Quiet s done pending) :
    ∃ s', agEventSchedule s = .ok s' ∧ Paused s' := by
  apply scheduleLoop_paused pending _ s done _ h
  rw [h.unread]
  have hle := length_le_encode pending
  omega

theorem callbackReturn_paused {s : EventManager} {done : List Event} {e : Event} {pending : List Event}
    {block ptr index : ℕ} (h : InCall s done e pending block ptr index) :
    ∃ s', callbackReturn s = .ok s' ∧ Paused s' := by
  obtain ⟨buf, hbuf, hroom, hbehind⟩ := h.placed
  have hst : Standing { s with frames := [] } done pending := ⟨h.ok, h.unread, h.sound, h.served⟩
  unfold callbackReturn
  simp only [h.frames]
  cases hw : (s.watchers e.id)[index + 1]? with
  | some w =>
    have hlt : index + 1 < (s.watchers e.id).length := (List.getElem?_eq_some_iff.mp hw).1
    obtain ⟨s', hs', hin⟩ := @Standing.call _ _ _ hst e buf block ptr (index + 1) w rfl hbuf h.dispatched h.watchers hw
      h.called hroom hbehind (h.intact hlt)
    exact ⟨s', hs', .inr ⟨done, e, pending, block, ptr, index + 1, hin⟩⟩
  | none =>
    have hlast : (s.watchers e.id).take (index + 1) = s.watchers e.id :=
      take_of_length_le (List.getElem?_eq_none_iff.mp hw)
    simp only
    apply @agEventSchedule_paused _ (done ++ [e]) pending
    exact {
      ok := h.ok
      unread := h.unread
      sound := h.sound
      served := rel_append h.served (.cons ⟨h.watchers, prefix_refl _⟩ .nil)
      frames := rfl
      dispatched := by rw [append_assoc]; exact h.dispatched
      called := by
        have hc := h.called
        rw [hlast] at hc
        simp only
        rw [callsOf_snoc h.served.length_eq]
        exact hc }

theorem eventBufferOf_ok (halloc : ∀ n, alloc n = true) (fresh : Mem) {s : EventManager}
    (h : ∀ buf ∈ s.buffer, buf.Ok) :
    ∃ buf, eventBufferOf alloc fresh s.buffer = .ok buf ∧ buf.Ok ∧ buf.contents = s.unread ∧
      ∀ b, s.buffer = some b → buf = b := by
  cases hb : s.buffer with
  | none =>
    obtain ⟨buf, hnew, hok, hc⟩ := agBNew_ok alloc halloc fresh 4096
    refine ⟨buf, ?_, hok, ?_, fun b hb' => by simp at hb'⟩
    · simp only [eventBufferOf, hnew]
    · rw [hc, EventManager.unread, hb]
  | some buf => exact ⟨buf, rfl, h buf hb, (unread_some hb).symm, fun b hb' => some.inj hb'⟩

theorem Standing.dispatch {s : EventManager} {done pending : List Event} (h : Standing s done pending) {e : Event}
    {buf' : Buffer} (hok : buf'.Ok) (hc : buf'.contents = s.unread ++ e.encode) (hid : e.id < maxEventId)
    (hlen : e.param.length < 2 ^ 31) (hw : e.watchers = s.watchers e.id) (block : ℕ) (es : List Event) :
    Standing { s with buffer := some buf', block := block, dispatched := es } done (pending ++ [e]) where
  ok := fun b hb => by rw [← some.inj hb]; exact hok
  unread := by
    rw [flatMap_append, flatMap_singleton, ← h.unread]
    exact hc
  sound := by
    intro e' he'
    rcases mem_append.mp he' with he' | he'
    · exact h.sound e' he'
    · rw [mem_singleton.mp he']
      exact ⟨hid, hlen, by simp only [hw]; exact prefix_refl _⟩
  served := h.served

theorem dispatch_inv {alloc : ℕ → Bool} {fresh : Mem} {s : EventManager} {id : ℕ} {param : List UInt8}
    (h : s.Inv) (hc : Careful s (.dispatch alloc fresh id param)) :
    ∃ s', eventStep s (.dispatch alloc fresh id param) = .ok s' ∧ s'.Inv := by
  by_cases hid : maxEventId ≤ id
  · refine ⟨s, ?_, h⟩
    simp only [eventStep, agEventDispatch, hid, if_true, pure_eq_ok, ok_bind]
  · obtain ⟨halloc, hlen, hspares⟩ := hc (by omega)
    let e : Event := ⟨id, param, s.watchers id⟩
    have hok : ∀ buf ∈ s.buffer, buf.Ok := by
      rcases h with ⟨_, _, hq⟩ | ⟨_, _, _, _, _, _, hq⟩
      · exact hq.ok
      · exact hq.ok
    obtain ⟨buf, hbuf, hbok, hbc, hsame⟩ := eventBufferOf_ok alloc halloc fresh hok
    obtain ⟨buf', hwr, hok', hc', hgrown⟩ := writeEvent_ok alloc halloc hbok e
    rw [hbc] at hc'
    refine ⟨{ s with
      buffer := some buf'
      block := if buf'.size = buf.size then s.block else s.block + 1
      dispatched := s.dispatched ++ [e] }, ?_, ?_⟩
    · simp only [eventStep, agEventDispatch, hid, if_false, hbuf, ok_bind, pure_eq_ok]
      rw [show writeEvent alloc buf id param = .ok buf' from hwr]
      rfl
    · rcases h with ⟨done, pending, hq⟩ | ⟨done, e₀, pending, block, ptr, index, hq⟩
      · left
        refine ⟨done, pending ++ [e], hq.toStanding.dispatch hok' hc' (by simp only [e]; omega) hlen rfl _ _,
          hq.frames, ?_, hq.called⟩
        rw [← append_assoc, ← hq.dispatched]
      · right
        obtain ⟨buf₀, hb₀, hroom, hbehind⟩ := hq.placed
        obtain rfl := hsame buf₀ hb₀
        have hst := hq.toStanding.dispatch hok' hc' (by simp only [e]; omega) hlen rfl
          (if buf'.size = buf.size then s.block else s.block + 1) (s.dispatched ++ [e])
        refine ⟨done, e₀, pending ++ [e], block, ptr, index, hst, hq.frames, ?_, hq.watchers, hq.reached,
          hq.called, ⟨buf', rfl, hroom.trans hgrown.size_le, ?_⟩, ?_⟩
        · rw [← cons_append, ← append_assoc, ← hq.dispatched]
        · have hr := hgrown.rpos
          omega
        · intro hmore
          have hrec := hq.intact hmore
          by_cases h0 : e₀.param.length = 0
          · unfold EventManager.receive
            simp only
            rw [if_pos h0, length_eq_zero_iff.mp h0]
          · -- the bytes left to hand out are spared by the three writes
            have hsp := hspares ⟨e₀.id, e₀.param.length, some (block, ptr), index⟩
              (by rw [hq.frames]; exact mem_singleton.mpr rfl) hmore (by simp only; omega) buf hb₀ _ rfl
            obtain ⟨b', hwr', hsize, hdata⟩ := writeEvent_beside alloc e ⟨hbok, hroom, hbehind, hsp⟩
            obtain rfl : b' = buf' := ok_unique hwr' hwr
            simp only [EventManager.receive, hb₀, h0, if_false] at hrec
            simp only [EventManager.receive, h0, if_false, hsize, if_true, hdata]
            exact hrec

theorem Standing.watch {s : EventManager} {done pending : List Event} (h : Standing s done pending)
    {watchers : ℕ → List ℕ} (hw : ∀ id, s.watchers id <+: watchers id) :
    Standing { s with watchers := watchers } done pending where
  ok := h.ok
  unread := h.unread
  sound := fun e he => ⟨(h.sound e he).1, (h.sound e he).2.1, (h.sound e he).2.2.trans (hw e.id)⟩
  served := h.served.imp fun e _ hs => ⟨hs.1, hs.2.trans (hw e.id)⟩

theorem InCall.watch {s : EventManager} {done : List Event} {e : Event} {pending : List Event}
    {block ptr index : ℕ} (h : InCall s done e pending block ptr index) {watchers : ℕ → List ℕ}
    (hw : ∀ id, s.watchers id <+: watchers id)
    (hi : watchers e.id ≠ s.watchers e.id → s.Intact ⟨e.id, e.param.length, some (block, ptr), index⟩) :
    InCall { s with watchers := watchers } done e pending block ptr index := by
  obtain ⟨ws, hws⟩ := hw e.id
  have htake : (watchers e.id).take (index + 1) = (s.watchers e.id).take (index + 1) := by
    rw [← hws, take_append_of_le_length h.reached]
  refine ⟨h.toStanding.watch hw, h.frames, h.dispatched, h.watchers.trans (hw e.id), ?_, ?_, h.placed, ?_⟩
  · exact h.reached.trans_le (hw e.id).length_le
  · rw [htake]
    exact h.called
  · intro hmore
    by_cases he : watchers e.id = s.watchers e.id
    · exact h.intact (by simp only [he] at hmore; exact hmore)
    · obtain ⟨c, hlast, hr⟩ := hi he
      -- the last call is that of the watcher in progress
      have hc := h.called
      rw [take_add_one, List.getElem?_eq_getElem h.reached, toList_some, map_append,
        ← append_assoc, map_singleton] at hc
      rw [hc, List.getLast?_append_of_ne_nil _ (by simp), List.getLast?_singleton] at hlast
      rw [← some.inj hlast] at hr
      exact hr

theorem watch_inv {s : EventManager} {id w : ℕ} (h : s.Inv) (hc : Careful s (.watch id w)) :
    (agEventWatch s id w).2.Inv := by
  unfold agEventWatch
  split
  · exact h
  · have hw : ∀ i, s.watchers i <+: update s.watchers id (s.watchers id ++ [w]) i := by
      intro i
      by_cases hi : i = id
      · subst hi
        rw [update_self]
        exact prefix_append _ _
      · rw [update_of_ne hi]
    rcases h with ⟨done, pending, hq⟩ | ⟨done, e, pending, block, ptr, index, hq⟩
    · exact .inl ⟨done, pending, hq.toStanding.watch hw, hq.frames, hq.dispatched, hq.called⟩
    · refine .inr ⟨done, e, pending, block, ptr, index, hq.watch hw fun hne => ?_⟩
      apply hc _ (by rw [hq.frames]; exact mem_singleton.mpr rfl)
      by_contra hne'
      exact hne (update_of_ne hne' _ _)

theorem Paused.inv {s : EventManager} (h : Paused s) : s.Inv := by
  rcases h with ⟨done, hq⟩ | hc
  · exact .inl ⟨done, [], hq⟩
  · exact .inr hc

theorem schedule_paused {s : EventManager} {a : EventAct} (h : s.Inv) (hc : Careful s a) (ha : a = .schedule ∨ a = .ret) :
    ∃ s', eventStep s a = .ok s' ∧ Paused s' := by
  rcases ha with rfl | rfl
  · rcases h with ⟨done, pending, hq⟩ | ⟨done, e, pending, block, ptr, index, hq⟩
    · exact agEventSchedule_paused hq
    · -- called from a callback with nothing unread, the loop does not start
      have hu : s.unread = [] := hc.resolve_left (by rw [hq.frames]; simp)
      obtain ⟨buf, hb, -⟩ := hq.placed
      refine ⟨s, ?_, .inr ⟨done, e, pending, block, ptr, index, hq⟩⟩
      rw [unread_some hb] at hu
      rw [eventStep, agEventSchedule, scheduleLoop, hb]
      simp only [agBSize_ok (hq.ok buf hb), hu, ok_bind, length_nil, if_true, pure_eq_ok]
  · rcases h with ⟨done, pending, hq⟩ | ⟨done, e, pending, block, ptr, index, hq⟩
    · exact absurd hq.frames hc
    · exact callbackReturn_paused hq

theorem eventStep_inv {s : EventManager} (a : EventAct) (h : s.Inv) (hc : Careful s a) :
    ∃ s', eventStep s a = .ok s' ∧ s'.Inv := by
  cases a with
  | dispatch alloc fresh id param => exact dispatch_inv h hc
  | watch id w => exact ⟨_, rfl, watch_inv h hc⟩
  | schedule =>
    obtain ⟨s', hs', hp⟩ := schedule_paused h hc (.inl rfl)
    exact ⟨s', hs', hp.inv⟩
  | ret =>
    obtain ⟨s', hs', hp⟩ := schedule_paused h hc (.inr rfl)
    exact ⟨s', hs', hp.inv⟩

theorem loaded_inv : EventManager.loaded.Inv :=
  .inl ⟨[], [], ⟨fun _ h => by simp [EventManager.loaded] at h, rfl, fun _ h => by simp at h, .nil⟩, rfl, rfl, rfl⟩

theorem eventRun_inv (acts : List EventAct) (h : Along eventStep Careful .loaded acts) :
    ∃ s, run eventStep .loaded acts = .ok s ∧ s.Inv :=
  run_ok (fun _ a hi hc => eventStep_inv a hi hc) acts .loaded loaded_inv h

def dispatchBehindUnread : List EventAct :=
  [.watch 1 10, .watch 1 20, .dispatch (fun _ => true) (fun _ => 0) 1 [7],
    .dispatch (fun _ => true) (fun _ => 0) 1 [8], .schedule, .dispatch (fun _ => true) (fun _ => 0) 1 [9], .ret]

theorem dispatchBehindUnread_careful : Along eventStep Careful .loaded dispatchBehindUnread := by
  refine Along.cons (fun _ h => absurd h not_mem_nil) rfl ?_
  refine Along.cons (fun _ h => absurd h not_mem_nil) rfl ?_
  refine Along.cons (fun _ => ⟨fun _ => rfl, by decide, fun _ h => absurd h not_mem_nil⟩) rfl ?_
  refine Along.cons (fun _ => ⟨fun _ => rfl, by decide, fun _ h => absurd h not_mem_nil⟩) rfl ?_
  refine Along.cons (.inl rfl) rfl ?_
  refine Along.cons (fun _ => ⟨fun _ => rfl, by decide, by decide +kernel⟩) rfl ?_
  exact Along.cons (cons_ne_nil _ _) rfl trivial

end CServer.World
