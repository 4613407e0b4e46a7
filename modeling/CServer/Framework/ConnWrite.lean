import CServer.Framework.Conn

/-! # `framework/network.c`: the send path

`_agN_send` and `_agN_writev` try the kernel first when nothing is waiting in `wbuf`, and append
what it did not take; `do_conn_write` later sends from `wbuf`. The functions below are the bodies
after `_agR_get` has found the connection. What `send` and `writev` return is an input, the bytes
they accept an output.
-/
namespace CServer.Framework
open CServer.Lib List

/-! ## The code -/

def toInt (r : Int) : Int := r.bmod (2 ^ 32)

def accepted (offered : List UInt8) (r : Int) : List UInt8 := offered.take r.toNat

variable (alloc : ℕ → Bool)

/-- The end of `_agN_send`: append what is left to `wbuf`. -/
def sendRest (fresh : Mem) (ctl : Int) (c : Conn) (buff : List UInt8) :
    Except Fault (Int × Conn) := do
  if buff.length = 0 then return (0, c)
  match ← ensureBuffer alloc fresh c.wbuf with
  | none => return (-1, c)
  | some b =>
    match ← agBBuffer alloc b buff.length with
    | (none, b) => return (-1, { c with wbuf := some b })
    | (some ptr, b) =>
      let b ← b.fill ptr buff
      return (0, (connSetEvent ctl { c with wbuf := some b } (epollIn ||| epollOut)).2)

/-- `_agN_send`; `r` is the result of `send`. The last component is what the kernel took. -/
def agNSend (fresh : Mem) (c : Conn) (buff : List UInt8) (r ctl : Int) :
    Except Fault (Int × Conn × List UInt8) := do
  if c.status ≠ .connected then return (-1, c, [])
  if buff.length = 0 then
    let (ret, c) := connSetEvent ctl c (epollIn ||| epollOut)
    return (ret, c, [])
  if !(← hasBytes c.wbuf) then
    let ret := toInt r
    let buff' := if 0 < ret then buff.drop ret.toNat else buff
    let (code, c) ← sendRest alloc fresh ctl c buff'
    return (code, c, accepted buff r)
  else
    let (code, c) ← sendRest alloc fresh ctl c buff
    return (code, c, [])

/-- The loop of `_agN_writev` that takes `ret` bytes off the front of the vector. -/
def advance : List (List UInt8) → Int → List (List UInt8)
  | [], _ => []
  | base :: iov, ret =>
    if 0 < ret then
      if (base.length : Int) < ret then [] :: advance iov (ret - base.length)
      else base.drop ret.toNat :: iov
    else base :: iov

/-- The loop of `_agN_writev` that appends what is left; the result of `_agB_write` is ignored. -/
def writevRest (alloc : ℕ → Bool) (fresh : Mem) : Conn → List (List UInt8) → Except Fault (Int × Conn)
  | c, [] => .ok (0, c)
  | c, base :: iov =>
    if 0 < base.length then do
      match ← ensureBuffer alloc fresh c.wbuf with
      | none => return (-1, c)
      | some b =>
        let (_, b) ← agBWrite alloc b base
        writevRest alloc fresh { c with wbuf := some b } iov
    else writevRest alloc fresh c iov

def wantWrite (ctl : Int) (c : Conn) : Except Fault Conn := do
  if ← hasBytes c.wbuf then return (connSetEvent ctl c (epollIn ||| epollOut)).2
  else return c

def agNWritev (fresh : Mem) (c : Conn) (iov : List (List UInt8)) (r ctl : Int) :
    Except Fault (Int × Conn × List UInt8) := do
  if c.status ≠ .connected then return (-1, c, [])
  let idle := !(← hasBytes c.wbuf)
  let (code, c) ← writevRest alloc fresh c (if idle then advance iov r else iov)
  let taken := if idle then accepted iov.flatten r else []
  if code ≠ 0 then return (code, c, taken)
  return (0, ← wantWrite ctl c, taken)

def sendPending (c : Conn) (r : Int) : Except Fault (Conn × List UInt8) :=
  match c.wbuf with
  | none => .ok (c, [])
  | some b => do
    let s ← agBSize b
    if s = 0 then return (c, [])
    match ← agBPeek b s with
    | none => .error .outOfBounds
    | some ptr =>
      if 0 < toInt r then
        let (_, b') ← agBRead b (toInt r).toNat
        return ({ c with wbuf := some b' }, accepted (slice b.data ptr s) r)
      else return (c, accepted (slice b.data ptr s) r)

def doConnWrite (c : Conn) (r ctl : Int) : Except Fault (Conn × List UInt8) := do
  if c.status ≠ .connected then return (c, [])
  let (c, taken) ← sendPending c r
  if ← hasBytes c.wbuf then return (c, taken)
  else return ((connSetEvent ctl c epollIn).2, taken)

/-! ## Results of the system calls -/

/-- `writev` fails with `-1` or takes a number of bytes up to what it is offered. -/
def KernelResult (offered : ℕ) (r : Int) : Prop := r = -1 ∨ (0 ≤ r ∧ r ≤ offered)

/-- `send` moreover never takes more than an `int` can count: the kernel transfers at most
`0x7ffff000` bytes in one call. -/
def SendResult (offered : ℕ) (r : Int) : Prop := KernelResult offered r ∧ r ≤ 0x7ffff000

theorem SendResult.toInt_eq {offered : ℕ} {r : Int} (h : SendResult offered r) : toInt r = r := by
  obtain ⟨hr, hcap⟩ := h
  have hge : -1 ≤ r := by
    rcases hr with rfl | ⟨h0, -⟩
    · exact le_refl _
    · omega
  exact Int.bmod_eq_of_le (by norm_num; omega) (by norm_num; omega)

theorem accepted_append_drop (offered : List UInt8) {r : Int} :
    accepted offered r ++ (if 0 < r then offered.drop r.toNat else offered) = offered := by
  unfold accepted
  split
  · exact take_append_drop _ _
  · have hz : r.toNat = 0 := by omega
    rw [hz, take_zero, nil_append]

theorem advance_flatten (iov : List (List UInt8)) (r : Int) (h : r ≤ iov.flatten.length) :
    accepted iov.flatten r ++ (advance iov r).flatten = iov.flatten := by
  induction iov generalizing r with
  | nil => simp [advance, accepted]
  | cons base iov ih =>
    rw [advance]
    split
    · next hpos =>
      split
      · next hlt =>
        have hle : r - base.length ≤ (iov.flatten.length : Int) := by
          rw [flatten_cons, length_append] at h
          push_cast at h
          omega
        have hih := ih (r - base.length) hle
        have htake : accepted (base :: iov).flatten r = base ++ accepted iov.flatten (r - base.length) := by
          have e : r.toNat = base.length + (r - base.length).toNat := by omega
          rw [accepted, accepted, flatten_cons, e, take_length_add_append]
        rw [htake, flatten_cons, nil_append, append_assoc, hih, flatten_cons]
      · next hge =>
        have hle : r.toNat ≤ base.length := by omega
        rw [accepted, flatten_cons, flatten_cons, take_append_of_le_length hle,
          ← append_assoc, take_append_drop]
    · next hneg =>
      have hz : r.toNat = 0 := by omega
      rw [accepted, hz, take_zero, nil_append]

/-! ## Each call -/

section Step
variable {alloc : ℕ → Bool} (halloc : ∀ n, alloc n = true) (fresh : Mem) {c : Conn}

structure SendOk (c : Conn) : Prop where
  connected : c.status = .connected
  buf : BufOk c.wbuf

theorem SendOk.setEvent (h : SendOk c) (ctl : Int) (events : ℕ) :
    SendOk (connSetEvent ctl c events).2 ∧ bytesOf (connSetEvent ctl c events).2.wbuf = bytesOf c.wbuf := by
  obtain ⟨ev, he⟩ := connSetEvent_frame ctl c events
  rw [he]
  exact ⟨⟨h.connected, h.buf⟩, rfl⟩

theorem wantWrite_ok (h : SendOk c) (ctl : Int) :
    ∃ c', wantWrite ctl c = .ok c' ∧ SendOk c' ∧ bytesOf c'.wbuf = bytesOf c.wbuf := by
  rw [wantWrite, hasBytes_ok h.buf, ok_bind]
  split
  · exact ⟨_, rfl, h.setEvent ctl (epollIn ||| epollOut)⟩
  · exact ⟨c, rfl, h, rfl⟩

include halloc

theorem sendRest_ok (h : SendOk c) (ctl : Int) (buff : List UInt8) :
    ∃ ret c', sendRest alloc fresh ctl c buff = .ok (ret, c') ∧ SendOk c' ∧
      bytesOf c'.wbuf = bytesOf c.wbuf ++ buff := by
  by_cases hz : buff.length = 0
  · have hnil : buff = [] := length_eq_zero_iff.mp hz
    subst hnil
    exact ⟨0, c, rfl, h, by rw [append_nil]⟩
  · obtain ⟨b, hens, hb, hbc⟩ := ensureBuffer_ok halloc fresh h.buf
    obtain ⟨ptr, b₁, hres, hr⟩ := agBBuffer_ok alloc halloc hb buff.length
    obtain ⟨b₂, hfill, hok, hc⟩ := hr.fill
    have h₂ : SendOk { c with wbuf := some b₂ } := ⟨h.connected, hok⟩
    obtain ⟨hev, hbytes⟩ := h₂.setEvent ctl (epollIn ||| epollOut)
    refine ⟨0, _, ?_, hev, ?_⟩
    · simp only [sendRest, hz, if_false, hens, ok_bind, hres, hfill, pure_eq_ok]
    · rw [hbytes, ← hbc]
      exact hc

theorem agNSend_ok (h : SendOk c) (buff : List UInt8) {r : Int} (hr : SendResult buff.length r) (ctl : Int) :
    ∃ ret c' taken, agNSend alloc fresh c buff r ctl = .ok (ret, c', taken) ∧ SendOk c' ∧
      taken ++ bytesOf c'.wbuf = bytesOf c.wbuf ++ buff := by
  have hconn : ¬ c.status ≠ .connected := not_not.mpr h.connected
  by_cases hz : buff.length = 0
  · have hnil : buff = [] := length_eq_zero_iff.mp hz
    obtain ⟨hev, hbytes⟩ := h.setEvent ctl (epollIn ||| epollOut)
    refine ⟨(connSetEvent ctl c (epollIn ||| epollOut)).1, _, [], ?_, hev, ?_⟩
    · simp only [agNSend, hconn, if_false, hz, if_true, pure_eq_ok]
    rw [hbytes, hnil, append_nil, nil_append]
  · by_cases hne : bytesOf c.wbuf = []
    · obtain ⟨ret, c', hs, hok, hbytes⟩ :=
        sendRest_ok halloc fresh h ctl (if 0 < r then buff.drop r.toNat else buff)
      refine ⟨ret, c', accepted buff r, ?_, hok, ?_⟩
      · simp [agNSend, hconn, hz, hasBytes_ok h.buf, hne, hr.toInt_eq, hs]
      · rw [hbytes, hne, nil_append, accepted_append_drop, nil_append]
    · obtain ⟨ret, c', hs, hok, hbytes⟩ := sendRest_ok halloc fresh h ctl buff
      refine ⟨ret, c', [], ?_, hok, hbytes⟩
      simp [agNSend, hconn, hz, hasBytes_ok h.buf, hne, hs]

theorem writevRest_ok (iov : List (List UInt8)) : ∀ {c : Conn}, SendOk c →
    ∃ c', writevRest alloc fresh c iov = .ok (0, c') ∧ SendOk c' ∧
      bytesOf c'.wbuf = bytesOf c.wbuf ++ iov.flatten := by
  induction iov with
  | nil =>
    intro c h
    exact ⟨c, rfl, h, by simp⟩
  | cons base iov ih =>
    intro c h
    by_cases hpos : 0 < base.length
    · obtain ⟨b, hens, hb, hbc⟩ := ensureBuffer_ok halloc fresh h.buf
      obtain ⟨b₁, hw, hok, hc⟩ := agBWrite_ok alloc halloc hb base
      obtain ⟨c', hrest, hok', hbytes⟩ := ih (c := { c with wbuf := some b₁ }) ⟨h.connected, hok⟩
      refine ⟨c', ?_, hok', ?_⟩
      · simp only [writevRest, hpos, if_true, hens, ok_bind, hw, hrest]
      · rw [hbytes, flatten_cons, ← append_assoc, ← hbc, ← hc]
        rfl
    · have hnil : base = [] := length_eq_zero_iff.mp (by omega)
      obtain ⟨c', hrest, hok', hbytes⟩ := ih h
      refine ⟨c', ?_, hok', ?_⟩
      · simp only [writevRest, hpos, if_false, hrest]
      · rw [hbytes, flatten_cons, hnil, nil_append]

theorem agNWritev_ok (h : SendOk c) (iov : List (List UInt8)) {r : Int}
    (hr : KernelResult iov.flatten.length r) (ctl : Int) :
    ∃ ret c' taken, agNWritev alloc fresh c iov r ctl = .ok (ret, c', taken) ∧ SendOk c' ∧
      taken ++ bytesOf c'.wbuf = bytesOf c.wbuf ++ iov.flatten := by
  have hconn : ¬ c.status ≠ .connected := not_not.mpr h.connected
  have hle : r ≤ iov.flatten.length := by
    rcases hr with rfl | ⟨-, h1⟩
    · omega
    · exact h1
  by_cases hne : bytesOf c.wbuf = []
  · obtain ⟨c₁, hrest, hok, hbytes⟩ := writevRest_ok halloc fresh (advance iov r) h
    obtain ⟨c', hw, hok', hbytes'⟩ := wantWrite_ok hok ctl
    refine ⟨0, c', accepted iov.flatten r, ?_, hok', ?_⟩
    · simp [agNWritev, hconn, hasBytes_ok h.buf, hne, hrest, hw]
    · rw [hbytes', hbytes, hne, nil_append, nil_append]
      exact advance_flatten iov r hle
  · obtain ⟨c₁, hrest, hok, hbytes⟩ := writevRest_ok halloc fresh iov h
    obtain ⟨c', hw, hok', hbytes'⟩ := wantWrite_ok hok ctl
    refine ⟨0, c', [], ?_, hok', by rw [nil_append, hbytes', hbytes]⟩
    simp [agNWritev, hconn, hasBytes_ok h.buf, hne, hrest, hw]

omit halloc

theorem sendPending_ok (h : SendOk c) {r : Int} (hr : SendResult (bytesOf c.wbuf).length r) :
    ∃ c' taken, sendPending c r = .ok (c', taken) ∧ SendOk c' ∧ taken ++ bytesOf c'.wbuf = bytesOf c.wbuf := by
  cases hw : c.wbuf with
  | none => exact ⟨c, [], by rw [sendPending, hw], h, by rw [hw, nil_append]⟩
  | some b =>
    have hb := h.buf
    rw [hw] at hb hr
    have hr : SendResult b.contents.length r := hr
    rw [sendPending, hw]
    simp only [agBSize_ok hb, ok_bind]
    by_cases hz : b.contents.length = 0
    · exact ⟨c, [], by rw [if_pos hz]; rfl, h, by rw [hw, nil_append]⟩
    obtain ⟨hpeek, hbytes⟩ := agBPeek_some hb b.contents.length (le_refl _)
    rw [take_length] at hbytes
    simp only [hz, if_false, hpeek, ok_bind, hbytes, hr.toInt_eq]
    by_cases hpos : 0 < r
    · have hle : r.toNat ≤ b.contents.length := by
        rcases hr.1 with rfl | ⟨-, h1⟩ <;> omega
      obtain ⟨b', hread, hok, -, hc⟩ := agBRead_some hb r.toNat hle
      refine ⟨{ c with wbuf := some b' }, accepted b.contents r, ?_, ⟨h.connected, hok⟩, ?_⟩
      · simp only [hpos, if_true, hread, ok_bind, pure_eq_ok]
      · change accepted b.contents r ++ b'.contents = b.contents
        rw [hc, accepted, take_append_drop]
    · refine ⟨c, accepted b.contents r, by simp only [hpos, if_false, pure_eq_ok], h, ?_⟩
      have h0 : r.toNat = 0 := by omega
      rw [hw, accepted, h0, take_zero, nil_append]

theorem doConnWrite_ok (h : SendOk c) {r : Int} (hr : SendResult (bytesOf c.wbuf).length r) (ctl : Int) :
    ∃ c' taken, doConnWrite c r ctl = .ok (c', taken) ∧ SendOk c' ∧
      taken ++ bytesOf c'.wbuf = bytesOf c.wbuf := by
  have hconn : ¬ c.status ≠ .connected := not_not.mpr h.connected
  obtain ⟨c₁, taken, hp, hok, hbytes⟩ := sendPending_ok h hr
  rw [doConnWrite, if_neg hconn, hp]
  simp only [ok_bind, hasBytes_ok hok.buf]
  split
  · exact ⟨c₁, taken, rfl, hok, hbytes⟩
  · obtain ⟨hev, hevb⟩ := hok.setEvent ctl epollIn
    exact ⟨_, taken, rfl, hev, by rw [hevb]; exact hbytes⟩

end Step

/-! ## Histories -/

/-- A call on the send side, with what the system calls in it return. -/
inductive SendOp
  | send (buff : List UInt8) (r ctl : Int)
  | writev (iov : List (List UInt8)) (r ctl : Int)
  | flush (r ctl : Int)

def SendOp.payload : SendOp → List UInt8
  | .send buff _ _ => buff
  | .writev iov _ _ => iov.flatten
  | .flush _ _ => []

def SendOp.Possible (c : Conn) : SendOp → Prop
  | .send buff r _ => SendResult buff.length r
  | .writev iov r _ => KernelResult iov.flatten.length r
  | .flush r _ => SendResult (bytesOf c.wbuf).length r

def sendStep (fresh : Mem) (c : Conn) : SendOp → Except Fault (Conn × List UInt8)
  | .send buff r ctl => do
    let (_, c, taken) ← agNSend alloc fresh c buff r ctl
    return (c, taken)
  | .writev iov r ctl => do
    let (_, c, taken) ← agNWritev alloc fresh c iov r ctl
    return (c, taken)
  | .flush r ctl => doConnWrite c r ctl

/-- Every system call of the run returns something possible in the state it is made in. -/
def PossibleRun (alloc : ℕ → Bool) (fresh : Mem) : Conn → List SendOp → Prop
  | _, [] => True
  | c, op :: ops => op.Possible c ∧ ∀ c' taken, sendStep alloc fresh c op = .ok (c', taken) →
      PossibleRun alloc fresh c' ops

theorem sendStep_ok {alloc : ℕ → Bool} (halloc : ∀ n, alloc n = true) (fresh : Mem) {c : Conn} (h : SendOk c)
    {op : SendOp} (hop : op.Possible c) :
    ∃ c' taken, sendStep alloc fresh c op = .ok (c', taken) ∧ SendOk c' ∧
      taken ++ bytesOf c'.wbuf = bytesOf c.wbuf ++ op.payload := by
  cases op with
  | send buff r ctl =>
    obtain ⟨ret, c', taken, hs, hok, hb⟩ := agNSend_ok halloc fresh h buff hop ctl
    exact ⟨c', taken, by simp [sendStep, hs], hok, hb⟩
  | writev iov r ctl =>
    obtain ⟨ret, c', taken, hs, hok, hb⟩ := agNWritev_ok halloc fresh h iov hop ctl
    exact ⟨c', taken, by simp [sendStep, hs], hok, hb⟩
  | flush r ctl =>
    obtain ⟨c', taken, hs, hok, hb⟩ := doConnWrite_ok h hop ctl
    exact ⟨c', taken, hs, hok, by rw [hb, SendOp.payload, append_nil]⟩

theorem send_run {alloc : ℕ → Bool} (halloc : ∀ n, alloc n = true) (fresh : Mem) (ops : List SendOp) :
    ∀ {c : Conn}, SendOk c → PossibleRun alloc fresh c ops →
      ∃ c' taken, exec (sendStep alloc fresh) c ops = .ok (c', taken) ∧ SendOk c' ∧
        taken.flatten ++ bytesOf c'.wbuf = bytesOf c.wbuf ++ (ops.map SendOp.payload).flatten := by
  induction ops with
  | nil =>
    intro c h _
    exact ⟨c, [], rfl, h, by simp⟩
  | cons op ops ih =>
    intro c h hrun
    obtain ⟨hop, hrest⟩ := hrun
    obtain ⟨c₁, taken₁, hs, hok, hb⟩ := sendStep_ok halloc fresh h hop
    obtain ⟨c', taken, hx, hok', hb'⟩ := ih hok (hrest c₁ taken₁ hs)
    refine ⟨c', taken₁ :: taken, exec_cons_ok hs hx, hok', ?_⟩
    rw [flatten_cons, append_assoc, hb', ← append_assoc, hb, map_cons, flatten_cons,
      append_assoc]

/-- After any sequence of sends, vectored sends and flushes on a connection that started with
nothing pending, the bytes the kernel has accepted followed by the contents of `wbuf` are the
payloads in call order. -/
theorem send_order (halloc : ∀ n, alloc n = true) (fresh : Mem) (c : Conn)
    (hconn : c.status = .connected) (hbuf : BufOk c.wbuf) (hempty : bytesOf c.wbuf = []) (ops : List SendOp)
    (hops : PossibleRun alloc fresh c ops) :
    ∃ c' taken, exec (sendStep alloc fresh) c ops = .ok (c', taken) ∧ c'.status = .connected ∧
      taken.flatten ++ bytesOf c'.wbuf = (ops.map SendOp.payload).flatten := by
  obtain ⟨c', taken, hx, hok, hb⟩ := send_run halloc fresh ops ⟨hconn, hbuf⟩ hops
  rw [hempty, nil_append] at hb
  exact ⟨c', taken, hx, hok.connected, hb⟩

theorem send_order_partial_writev :
    ∃ c' taken, exec (sendStep (fun _ => true) (fun _ => 0)) { Conn.zero with status := .connected }
        [.writev [[1], [], [2, 3]] 2 0, .send [4] (-1) 0] = .ok (c', taken) ∧
      taken.flatten ++ bytesOf c'.wbuf = [1, 2, 3, 4] := by
  obtain ⟨c', taken, hx, -, hb⟩ := send_order (fun _ => true) (fun _ => rfl) (fun _ => 0)
    { Conn.zero with status := .connected } rfl trivial rfl [.writev [[1], [], [2, 3]] 2 0, .send [4] (-1) 0]
    ⟨.inr (by decide), fun _ _ _ => ⟨⟨.inl rfl, by decide⟩, fun _ _ _ => trivial⟩⟩
  exact ⟨c', taken, hx, hb⟩

end CServer.Framework
