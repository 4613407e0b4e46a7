import CServer.Framework.Conn
import CServer.Lib.Framing

/-! # `framework/network.c`: the receive path

`do_conn_read` calls `recv` until it has nothing more or until 10 KiB have been taken. A chunk is
handed to `on_message` straight from the stack buffer when nothing is pending; otherwise it is
appended to `rbuf` and processed from there. The results of `recv` are an input of the model: a
list from which each call takes a prefix. When the list is used up, `recv` answers `EAGAIN`.
-/
namespace CServer.Framework
open CServer.Lib List

variable {σ : Type}

/-! ## The code -/

/-- A positive result of `recv(fd, buff, sizeof(buff), 0)`. -/
structure Chunk where
  bytes : List UInt8
  pos : 0 < bytes.length
  le : bytes.length ≤ defaultBufferSize

inductive RecvResult
  | data (chunk : Chunk)
  | eof
  | intr
  | again
  | error (errno : Int)

/-- `on_message`: from the handler's state and the pending bytes to the answer, whether the
connection is still `cs_connected` afterwards, and the new state. -/
abbrev OnMessage (σ : Type) := σ → List UInt8 → ℕ × Bool × σ

/-- The loop of `process_conn_message`; `tsize` is what has been consumed so far. -/
def processLoop (onMessage : OnMessage σ) (st : σ) (data : List UInt8) (tsize : ℕ) : ℕ × Bool × σ :=
  if _hlen : data.length = 0 then (tsize, true, st)
  else
    let (s, connected, st') := onMessage st data
    if _hs : s = 0 ∨ data.length < s ∨ connected = false then (tsize, connected, st')
    else processLoop onMessage st' (data.drop s) (tsize + s)
termination_by data.length
decreasing_by
  rw [length_drop]
  omega

variable (onMessage : Option (OnMessage σ))

def processConnMessage (st : σ) (data : List UInt8) : ℕ × Bool × σ :=
  match onMessage with
  | none => (data.length, true, st)
  | some f => processLoop f st data 0

/-- How a call of `do_conn_read` ends. After `closed` the caller is told through `on_closed` and
the connection is closed; after `handlerClosed` a handler has closed it. -/
inductive ReadEnd
  | notConnected
  | again
  | limit
  | closed (error : Int)
  | handlerClosed
  deriving DecidableEq, Repr

/-- Peek all of `rbuf`, let the handler consume from it, drop what was consumed. -/
def processRbuf (c : Conn) (b : Buffer) (st : σ) :
    Except Fault (Bool × Conn × σ) := do
  let size ← agBSize b
  match ← agBPeek b size with
  | none => .error .outOfBounds
  | some ptr =>
    let (s, connected, st) := processConnMessage onMessage st (slice b.data ptr size)
    assert (decide (s ≤ size))
    if connected = false then return (false, { c with status := .closing, rbuf := some b }, st)
    let (_, b) ← agBRead b s
    return (true, { c with rbuf := some b }, st)

def recvAgain (c : Conn) (st : σ) :
    Except Fault (ReadEnd × Conn × σ) := do
  match c.rbuf, ← hasBytes c.rbuf with
  | some b, true =>
    let (connected, c, st) ← processRbuf onMessage c b st
    return (if connected then .again else .handlerClosed, c, st)
  | _, _ => return (.again, c, st)

/-- The branch of `do_conn_read` for received bytes; `false` when a handler closed the
connection. -/
def recvData (alloc : ℕ → Bool) (fresh : Mem) (onMessage : Option (OnMessage σ)) (c : Conn) (st : σ)
    (buff : List UInt8) : Except Fault (Bool × Conn × σ) := do
  if onMessage.isNone then return (true, c, st)
  if !(← hasBytes c.rbuf) then
    let (s, connected, st) := processConnMessage onMessage st buff
    assert (decide (s ≤ buff.length))
    if connected = false then return (false, { c with status := .closing }, st)
    if s < buff.length then
      match ← ensureBuffer alloc fresh c.rbuf with
      | none => .error .outOfBounds
      | some b =>
        let (_, b) ← agBWrite alloc b (buff.drop s)
        return (true, { c with rbuf := some b }, st)
    else return (true, c, st)
  else
    match ← ensureBuffer alloc fresh c.rbuf with
    | none => .error .outOfBounds
    | some b =>
      let (_, b) ← agBWrite alloc b buff
      processRbuf onMessage c b st

/-- The loop of `do_conn_read`; `bits` counts the bytes taken in this call. The last component is
what `recv` has still to answer. -/
def readLoop (alloc : ℕ → Bool) (fresh : Mem) (onMessage : Option (OnMessage σ)) :
    List RecvResult → ℕ → Conn → σ → Except Fault (ReadEnd × Conn × σ × List RecvResult)
  | [], bits, c, st =>
    if bits < 1024 * 10 then do
      let (e, c, st) ← recvAgain onMessage c st
      return (e, c, st, [])
    else .ok (.limit, c, st, [])
  | r :: rs, bits, c, st =>
    if bits < 1024 * 10 then
      match r with
      | .eof => .ok (.closed 0, c, st, rs)
      | .intr => readLoop alloc fresh onMessage rs bits c st
      | .again => do
        let (e, c, st) ← recvAgain onMessage c st
        return (e, c, st, rs)
      | .error errno => .ok (.closed errno, c, st, rs)
      | .data chunk => do
        let (connected, c, st) ← recvData alloc fresh onMessage c st chunk.bytes
        if connected = false then return (.handlerClosed, c, st, rs)
        readLoop alloc fresh onMessage rs (bits + chunk.bytes.length) c st
    else .ok (.limit, c, st, r :: rs)

def doConnRead (alloc : ℕ → Bool) (fresh : Mem) (onMessage : Option (OnMessage σ)) (rs : List RecvResult)
    (c : Conn) (st : σ) : Except Fault (ReadEnd × Conn × σ × List RecvResult) :=
  if c.status ≠ .connected then .ok (.notConnected, c, st, rs)
  else readLoop alloc fresh onMessage rs 0 c st

def doConnReads (alloc : ℕ → Bool) (fresh : Mem) (onMessage : Option (OnMessage σ)) :
    ℕ → List RecvResult → Conn → σ → Except Fault (Conn × σ × List RecvResult)
  | 0, rs, c, st => .ok (c, st, rs)
  | n + 1, rs, c, st => do
    let (_, c, st, rs) ← doConnRead alloc fresh onMessage rs c st
    doConnReads alloc fresh onMessage n rs c st

/-! ## A handler that cuts frames off the front -/

/-- It records the frames it consumes and never closes the connection. -/
def recorder (f : PrefixFramer UInt8) : OnMessage (List (List UInt8)) :=
  fun st data => (f.frame data, true, if f.frame data = 0 then st else st ++ [data.take (f.frame data)])

theorem processLoop_stop (onMessage : OnMessage σ) {st st' : σ} {data : List UInt8} {s tsize : ℕ}
    {connected : Bool} (hdata : data.length ≠ 0) (h : onMessage st data = (s, connected, st'))
    (hs : s = 0 ∨ data.length < s ∨ connected = false) :
    processLoop onMessage st data tsize = (tsize, connected, st') := by
  rw [processLoop, dif_neg hdata, h]
  exact dif_pos hs

theorem processLoop_step (onMessage : OnMessage σ) {st st' : σ} {data : List UInt8} {s tsize : ℕ}
    (h : onMessage st data = (s, true, st')) (hs : s ≠ 0) (hle : s ≤ data.length) :
    processLoop onMessage st data tsize = processLoop onMessage st' (data.drop s) (tsize + s) := by
  rw [processLoop, dif_neg (by omega), h]
  exact dif_neg (by simp only [hs, Bool.true_eq_false, or_false, false_or]; omega)

theorem processLoop_recorder (f : PrefixFramer UInt8) (st : List (List UInt8)) (data : List UInt8)
    (tsize : ℕ) :
    processLoop (recorder f) st data tsize =
      (tsize + (data.length - (f.rest data).length), true, st ++ f.frames data) := by
  induction hn : data.length using Nat.strongRecOn generalizing st data tsize with
  | _ n ih =>
    subst hn
    by_cases hf : f.frame data = 0
    · rw [f.rest_zero hf, f.frames_zero hf, append_nil, Nat.sub_self, Nat.add_zero]
      by_cases hz : data.length = 0
      · rw [processLoop, dif_pos hz]
      · exact processLoop_stop _ hz (by simp only [recorder, hf, if_true]) (.inl rfl)
    · have hle := f.frame_le data
      have hstep : recorder f st data = (f.frame data, true, st ++ [data.take (f.frame data)]) := by
        simp only [recorder, hf, if_false]
      have hrest := f.rest_length_le (data.drop (f.frame data))
      rw [processLoop_step _ hstep hf hle, ih _ (f.drop_lt hf) _ _ _ rfl, f.frames_cons hf, f.rest_cons hf,
        append_assoc, singleton_append]
      rw [length_drop] at hrest ⊢
      congr 1
      omega

theorem processConnMessage_recorder (f : PrefixFramer UInt8) (st : List (List UInt8)) (data : List UInt8) :
    processConnMessage (some (recorder f)) st data =
      (data.length - (f.rest data).length, true, st ++ f.frames data) := by
  rw [processConnMessage, processLoop_recorder, Nat.zero_add]

/-! ## One result of `recv` -/

/-- The connection is up, the frames recorded are those of the bytes received, and `rbuf` holds
what they leave over. -/
structure Framed (f : PrefixFramer UInt8) (received : List UInt8) (c : Conn) (st : List (List UInt8)) :
    Prop where
  connected : c.status = .connected
  buf : BufOk c.rbuf
  frames : st = f.frames received
  rest : bytesOf c.rbuf = f.rest received

section Step
variable {f : PrefixFramer UInt8} {received : List UInt8} {c : Conn} {st : List (List UInt8)}

theorem processRbuf_recorder (f : PrefixFramer UInt8) (c : Conn) (st : List (List UInt8)) (b : Buffer)
    (hb : b.Ok) :
    ∃ b', processRbuf (some (recorder f)) c b st =
        .ok (true, { c with rbuf := some b' }, st ++ f.frames b.contents) ∧
      b'.Ok ∧ b'.contents = f.rest b.contents := by
  have hle := f.rest_length_le b.contents
  obtain ⟨hpeek, hbytes⟩ := agBPeek_some hb b.contents.length (le_refl _)
  rw [take_length] at hbytes
  obtain ⟨b', hread, hok, -, hc⟩ :=
    agBRead_some hb (b.contents.length - (f.rest b.contents).length) (Nat.sub_le _ _)
  refine ⟨b', ?_, hok, by rw [hc, f.drop_frames]⟩
  have hs : decide (b.contents.length - (f.rest b.contents).length ≤ b.contents.length) = true :=
    decide_eq_true (Nat.sub_le _ _)
  simp only [processRbuf, agBSize_ok hb, ok_bind, hpeek, hbytes, processConnMessage_recorder, hs, assert_true,
    hread, Bool.true_eq_false, if_false, pure_eq_ok]

theorem recvAgain_framed (h : Framed f received c st) :
    ∃ c', recvAgain (some (recorder f)) c st = .ok (.again, c', st) ∧ Framed f received c' st := by
  rw [recvAgain, hasBytes_ok h.buf]
  cases hr : c.rbuf with
  | none => exact ⟨c, by simp, h⟩
  | some b =>
    have hb := h.buf
    have hrest := h.rest
    rw [hr] at hb hrest
    have hc : b.contents = f.rest received := hrest
    by_cases hne : b.contents = []
    · exact ⟨c, by simp [bytesOf, hne], h⟩
    · obtain ⟨b', hp, hok, hc'⟩ := processRbuf_recorder f c st b hb
      have hf := f.frame_rest received
      rw [hc, f.frames_zero hf, append_nil] at hp
      rw [hc, f.rest_zero hf] at hc'
      exact ⟨{ c with rbuf := some b' }, by simp [bytesOf, hne, hp], h.connected, hok, h.frames, hc'⟩

theorem recvData_framed {alloc : ℕ → Bool} (halloc : ∀ n, alloc n = true) (fresh : Mem)
    (h : Framed f received c st) (buff : List UInt8) :
    ∃ c' st', recvData alloc fresh (some (recorder f)) c st buff = .ok (true, c', st') ∧
      Framed f (received ++ buff) c' st' := by
  have hframes := f.frames_append received buff
  have hrestapp := f.rest_append received buff
  rw [← h.frames, ← h.rest] at hframes
  rw [← h.rest] at hrestapp
  obtain ⟨b, hens, hb, hbc⟩ := ensureBuffer_ok halloc fresh h.buf
  by_cases hne : bytesOf c.rbuf = []
  · -- nothing pending: the chunk is processed where it was received
    rw [hne, nil_append] at hframes hrestapp
    have hle := f.rest_length_le buff
    have hs : decide (buff.length - (f.rest buff).length ≤ buff.length) = true :=
      decide_eq_true (Nat.sub_le _ _)
    by_cases hall : f.rest buff = []
    · refine ⟨c, st ++ f.frames buff, ?_, h.connected, h.buf, hframes.symm, ?_⟩
      · simp [recvData, hasBytes_ok h.buf, hne, processConnMessage_recorder, hall]
      · rw [hne, hrestapp, hall]
    · have hlt : buff.length - (f.rest buff).length < buff.length := by
        have := length_pos_iff.mpr hall
        omega
      obtain ⟨b', hw, hok, hc'⟩ :=
        agBWrite_ok alloc halloc hb (buff.drop (buff.length - (f.rest buff).length))
      refine ⟨{ c with rbuf := some b' }, st ++ f.frames buff, ?_, h.connected, hok, hframes.symm, ?_⟩
      · simp [recvData, hasBytes_ok h.buf, hne, processConnMessage_recorder, hlt, hens, hw]
      · change b'.contents = _
        rw [hc', hbc, hne, f.drop_frames, hrestapp]
        rfl
  · obtain ⟨b₁, hw, hok₁, hc₁⟩ := agBWrite_ok alloc halloc hb buff
    obtain ⟨b', hp, hok, hc'⟩ := processRbuf_recorder f c st b₁ hok₁
    rw [hbc] at hc₁
    rw [hc₁] at hp hc'
    refine ⟨{ c with rbuf := some b' }, st ++ f.frames (bytesOf c.rbuf ++ buff), ?_, h.connected, hok,
      hframes.symm, hc'.trans hrestapp.symm⟩
    simp [recvData, hasBytes_ok h.buf, hne, hens, hw, hp]

/-! ## Whole calls -/

def RecvResult.isOpen : RecvResult → Bool
  | .data _ => true
  | .intr => true
  | .again => true
  | .eof => false
  | .error _ => false

def receivedBytes : List RecvResult → List UInt8
  | [] => []
  | .data chunk :: rs => chunk.bytes ++ receivedBytes rs
  | _ :: rs => receivedBytes rs

theorem receivedBytes_append (rs rs' : List RecvResult) :
    receivedBytes (rs ++ rs') = receivedBytes rs ++ receivedBytes rs' := by
  induction rs with
  | nil => rfl
  | cons r rs ih => cases r <;> simp [receivedBytes, ih]

/-- The results of `recv` that one call takes: up to the first `EAGAIN`, or until 10 KiB have come. -/
def callTakes : ℕ → List RecvResult → List RecvResult
  | _, [] => []
  | bits, r :: rs =>
    if bits < 1024 * 10 then
      match r with
      | .data chunk => r :: callTakes (bits + chunk.bytes.length) rs
      | .intr => r :: callTakes bits rs
      | .again => [r]
      | .eof => [r]
      | .error _ => [r]
    else []

def callsTake : ℕ → List RecvResult → List RecvResult
  | 0, _ => []
  | n + 1, rs => callTakes 0 rs ++ callsTake n (rs.drop (callTakes 0 rs).length)

theorem callTakes_drop (rs : List RecvResult) : ∀ bits, callTakes bits rs ++ rs.drop (callTakes bits rs).length = rs := by
  induction rs with
  | nil => exact fun _ => rfl
  | cons r rs ih =>
    intro bits
    rw [callTakes.eq_def]
    simp only
    split
    · cases r with
      | data chunk => exact congrArg (_ :: ·) (ih _)
      | intr => exact congrArg (_ :: ·) (ih bits)
      | _ => rfl
    · rfl

theorem callsTake_drop (n : ℕ) : ∀ rs, callsTake n rs ++ rs.drop (callsTake n rs).length = rs := by
  induction n with
  | zero => exact fun _ => rfl
  | succ n ih =>
    intro rs
    have hrest := ih (rs.drop (callTakes 0 rs).length)
    rw [callsTake, length_append, ← drop_drop, append_assoc, hrest, callTakes_drop]

/-- A call takes something if there is anything. -/
theorem callsTake_all (n : ℕ) : ∀ rs : List RecvResult, rs.length ≤ n → callsTake n rs = rs := by
  induction n with
  | zero => exact fun rs hrs => (length_eq_zero_iff.mp (Nat.le_zero.mp hrs)).symm
  | succ n ih =>
    intro rs hrs
    cases rs with
    | nil => rw [callsTake, drop_nil, ih [] (Nat.zero_le n)]; rfl
    | cons r rs =>
      have htaken : 1 ≤ (callTakes 0 (r :: rs)).length := by cases r <;> simp [callTakes]
      rw [callsTake, ih _ (by rw [length_drop]; omega), callTakes_drop]

theorem readLoop_framed {alloc : ℕ → Bool} (halloc : ∀ n, alloc n = true) (fresh : Mem) (rs : List RecvResult) :
    ∀ (bits : ℕ) (bytes : List UInt8) (c : Conn) (st : List (List UInt8)),
      (∀ r ∈ rs, r.isOpen = true) → Framed f bytes c st →
      ∃ e c' st', readLoop alloc fresh (some (recorder f)) rs bits c st =
          .ok (e, c', st', rs.drop (callTakes bits rs).length) ∧
        Framed f (bytes ++ receivedBytes (callTakes bits rs)) c' st' := by
  induction rs with
  | nil =>
    intro bits bytes c st _ h
    rw [readLoop]
    split
    · obtain ⟨c', ha, h'⟩ := recvAgain_framed h
      exact ⟨.again, c', st, by simp [ha], by simpa [callTakes, receivedBytes] using h'⟩
    · exact ⟨.limit, c, st, rfl, by simpa [callTakes, receivedBytes] using h⟩
  | cons r rs ih =>
    intro bits bytes c st hopen h
    have hopen' : ∀ r ∈ rs, r.isOpen = true := fun r hr => hopen r (mem_cons_of_mem _ hr)
    rw [readLoop.eq_def, callTakes.eq_def]
    simp only
    split
    · cases r with
      | eof => exact absurd (hopen .eof (by simp)) (by simp [RecvResult.isOpen])
      | error errno => exact absurd (hopen (.error errno) (by simp)) (by simp [RecvResult.isOpen])
      | intr => exact ih bits bytes c st hopen' h
      | again =>
        obtain ⟨c', ha, h'⟩ := recvAgain_framed h
        exact ⟨.again, c', st, by simp [ha], by simpa [receivedBytes] using h'⟩
      | data chunk =>
        obtain ⟨c₁, st₁, hd, h₁⟩ := recvData_framed halloc fresh h chunk.bytes
        obtain ⟨e, c', st', hl, h'⟩ := ih (bits + chunk.bytes.length) (bytes ++ chunk.bytes) c₁ st₁ hopen' h₁
        refine ⟨e, c', st', ?_, ?_⟩
        · simp only [hd, ok_bind, Bool.true_eq_false, if_false, hl, length_cons, drop_succ_cons]
        · rwa [receivedBytes, ← append_assoc]
    · exact ⟨.limit, c, st, rfl, by simpa [receivedBytes] using h⟩

theorem doConnReads_framed {alloc : ℕ → Bool} (halloc : ∀ n, alloc n = true) (fresh : Mem) (n : ℕ) :
    ∀ (rs : List RecvResult) (bytes : List UInt8) (c : Conn) (st : List (List UInt8)),
      (∀ r ∈ rs, r.isOpen = true) → Framed f bytes c st →
      ∃ c' st', doConnReads alloc fresh (some (recorder f)) n rs c st =
          .ok (c', st', rs.drop (callsTake n rs).length) ∧
        Framed f (bytes ++ receivedBytes (callsTake n rs)) c' st' := by
  induction n with
  | zero =>
    intro rs bytes c st _ h
    exact ⟨c, st, rfl, by simpa [callsTake, receivedBytes] using h⟩
  | succ n ih =>
    intro rs bytes c st hopen h
    obtain ⟨e, c₁, st₁, hl, h₁⟩ := readLoop_framed halloc fresh rs 0 bytes c st hopen h
    obtain ⟨c', st', hn, h'⟩ := ih _ _ c₁ st₁ (fun r hr => hopen r (mem_of_mem_drop hr)) h₁
    refine ⟨c', st', ?_, ?_⟩
    · have hconn : ¬ c.status ≠ .connected := not_not.mpr h.connected
      rw [doConnReads, doConnRead, if_neg hconn, hl, callsTake, length_append, ← drop_drop]
      exact hn
    · rwa [callsTake, receivedBytes_append, ← append_assoc]

end Step

/-- However `recv` splits a stream over any number of `do_conn_read` calls, each call takes the results up to
the first `EAGAIN` or 10 KiB; after it the handler has consumed exactly the complete frames of the bytes
received so far, once each and in order, and `rbuf` holds the bytes behind the last of them. -/
theorem receive_framing (alloc : ℕ → Bool) (halloc : ∀ n, alloc n = true) (fresh : Mem)
    (f : PrefixFramer UInt8) (c : Conn) (hconn : c.status = .connected) (hbuf : BufOk c.rbuf)
    (hempty : bytesOf c.rbuf = []) (n : ℕ) (rs : List RecvResult) (hopen : ∀ r ∈ rs, r.isOpen = true) :
    ∃ c' rest,
      doConnReads alloc fresh (some (recorder f)) n rs c [] =
        .ok (c', f.frames (receivedBytes (callsTake n rs)), rest) ∧
      callsTake n rs ++ rest = rs ∧ (rs.length ≤ n → callsTake n rs = rs) ∧
      c'.status = .connected ∧ bytesOf c'.rbuf = f.rest (receivedBytes (callsTake n rs)) := by
  have h₀ : Framed f [] c [] :=
    ⟨hconn, hbuf, by rw [f.frames_nil], by rw [hempty, f.rest_nil]⟩
  obtain ⟨c', st', hn, h'⟩ := doConnReads_framed halloc fresh n rs [] c [] hopen h₀
  rw [nil_append] at h'
  rw [h'.frames] at hn
  exact ⟨c', _, hn, callsTake_drop n rs, callsTake_all n rs, h'.connected, h'.rest⟩

def lengthByteFramer : PrefixFramer UInt8 where
  frame s :=
    match s with
    | [] => 0
    | b :: bs => if b.toNat ≤ bs.length then b.toNat + 1 else 0
  frame_le s := by
    cases s with
    | nil => rfl
    | cons b bs =>
      simp only [length_cons]
      split <;> omega
  frame_prefix s h t := by
    cases s with
    | nil => simp at h
    | cons b bs =>
      simp only at h ⊢
      split at h
      · next hle => simp [hle]
      · omega

/-- A frame of three bytes in two chunks, and the first byte of another one. -/
theorem receive_framing_two_chunks :
    ∃ c' rest,
      doConnReads (fun _ => true) (fun _ => 0) (some (recorder lengthByteFramer)) 2
          [.data ⟨[2, 7], by decide, by decide⟩, .intr, .again, .data ⟨[8, 1], by decide, by decide⟩]
          { Conn.zero with status := .connected } [] = .ok (c', [[2, 7, 8]], rest) ∧
      rest = [] ∧ c'.status = .connected ∧ bytesOf c'.rbuf = [1] := by
  obtain ⟨c', rest, h, hrest, -, hconn, hbytes⟩ :=
    receive_framing (fun _ => true) (fun _ => rfl) (fun _ => 0) lengthByteFramer
      { Conn.zero with status := .connected } rfl trivial rfl 2
      [.data ⟨[2, 7], by decide, by decide⟩, .intr, .again, .data ⟨[8, 1], by decide, by decide⟩]
      (by simp [RecvResult.isOpen])
  have htaken : receivedBytes (callsTake 2
      [.data ⟨[2, 7], by decide, by decide⟩, .intr, .again, .data ⟨[8, 1], by decide, by decide⟩]) = [2, 7, 8, 1] := rfl
  have hframe : lengthByteFramer.frame [2, 7, 8, 1] ≠ 0 := by decide
  have hlast : lengthByteFramer.frame [1] = 0 := by decide
  rw [htaken, lengthByteFramer.frames_cons hframe] at h
  rw [htaken, lengthByteFramer.rest_cons hframe] at hbytes
  refine ⟨c', rest, ?_, append_right_eq_self.mp hrest, hconn, hbytes.trans (lengthByteFramer.rest_zero hlast)⟩
  rw [h]
  exact congrArg (fun frames => Except.ok (c', [2, 7, 8] :: frames, rest)) (lengthByteFramer.frames_zero hlast)

end CServer.Framework
