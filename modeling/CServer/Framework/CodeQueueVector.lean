import CServer.Framework.CodeQueue

/-! # `agCQ_pushv`: one message in fragments

`agCQ_pushv` skips four bytes, writes the fragments one by one and then the length, but at offset 0
of the ring and not at the old `end`. What later pops return depends on the bytes between `begin`
and `end` alone (`popBytes`).
-/
namespace CServer.Framework
open CServer.Lib List Nat

/-! ## The code -/

/-- The loop of `agCQ_pushv`: `none` where a fragment does not fit, else the end and the length. -/
def agCQPushvLoop : CQ → ℕ → ℕ → List (List UInt8) → Except Fault (CQ × Option (ℕ × ℕ))
  | q, e, tlen, [] => .ok (q, some (e, tlen))
  | q, e, tlen, data :: args =>
    let size := cqSize q
    let length := cqLength q q.beginPos e
    if size < length + data.length then .ok (q, none)
    else do
      let (q, e) ← cqWrite q e data
      agCQPushvLoop q e (tlen + data.length) args

def agCQPushv (q : CQ) (args : List (List UInt8)) : Except Fault (CQ × ℕ) := do
  let sEnd := 0
  let e := (q.endPos + 4) % q.size
  let (q, r) ← agCQPushvLoop q e 0 args
  match r with
  | none => .ok (q, 0)
  | some (e, tlen) => do
    let wlen := tlen % 2 ^ 32
    let (q, _) ← cqWrite q sEnd (le32 wlen)
    .ok (setCriticalData q none (some e), tlen)

/-! ## Calls -/

inductive CQCall
  | push (bs : List UInt8)
  | pushv (args : List (List UInt8))
  | pop (len : ℕ)

def cqCall (q : CQ) : CQCall → Except Fault CQ
  | .push bs => do
    let (q, _) ← agCQPush q bs
    .ok q
  | .pushv args => do
    let (q, _) ← agCQPushv q args
    .ok q
  | .pop len => do
    let (q, _) ← agCQPop q len
    .ok q

def SamePops (q₁ q₂ : CQ) : Prop :=
  ∀ lens, ∃ q₁' q₂' outs, exec agCQPop q₁ lens = .ok (q₁', outs) ∧ exec agCQPop q₂ lens = .ok (q₂', outs)

/-- The two ways to push return the same value and leave the same messages to pop; where a message
that is not empty is refused, the messages are those of before. -/
def Agrees (q : CQ) (args : List (List UInt8)) : Prop :=
  ∃ qv qp ret, agCQPushv q args = .ok (qv, ret) ∧ agCQPush q args.flatten = .ok (qp, ret) ∧
    SamePops qv qp ∧ (ret = 0 → args.flatten ≠ [] → SamePops qv q)

/-! ## The condition -/

def head (body : List UInt8) : List UInt8 := le32 (body.length % 2 ^ 32)

/-- The length written at offset 0 does no harm: the four bytes skipped at `end` read as the length,
and the used bytes among the first four of the ring are those of the length. -/
def HeadInPlace (q : CQ) (body : List UInt8) : Prop :=
  ringSlice (blit q.data 0 (head body)) q.size q.endPos 4 = head body ∧
  ringSlice (blit q.data 0 (head body)) q.size q.beginPos (cqLength q q.beginPos q.endPos) =
    ringSlice q.data q.size q.beginPos (cqLength q q.beginPos q.endPos) ∧
  ∀ i < body.length, (q.endPos + 4 + i) % q.size < 4 →
    body.getD i 0 = (head body).getD ((q.endPos + 4 + i) % q.size) 0

instance (q : CQ) (body : List UInt8) : Decidable (HeadInPlace q body) :=
  inferInstanceAs (Decidable (_ ∧ _ ∧ _))

def fitting (room : ℕ) : List (List UInt8) → List UInt8
  | [] => []
  | data :: args => if data.length ≤ room then data ++ fitting (room - data.length) args else []

/-- Where `agCQ_pushv` does what `agCQ_push` does. With room for the message, the length at offset 0
does no harm. Without room and short of full, there is a fragment to refuse. In a full queue, what is
written before the refusal is there already. -/
def PushvSafe (q : CQ) (args : List (List UInt8)) : Prop :=
  if cqLength q q.beginPos q.endPos + args.flatten.length + 4 ≤ cqSize q then HeadInPlace q args.flatten
  else if cqLength q q.beginPos q.endPos = cqSize q then
    cqSize q = 0 ∨ cqSize q < args.flatten.length ∧
      ringSlice q.data q.size q.beginPos (fitting (cqSize q) args).length = fitting (cqSize q) args
  else cqLength q q.beginPos q.endPos < cqSize q ∧ args ≠ []

instance (q : CQ) (args : List (List UInt8)) : Decidable (PushvSafe q args) :=
  inferInstanceAs (Decidable (ite _ _ _))

/-! ## The bytes between `begin` and `end` -/

structure CQ.Sound (q : CQ) : Prop where
  size_le : 4 ≤ q.size
  begin_lt : q.beginPos < q.size
  end_lt : q.endPos < q.size

def CQ.length (q : CQ) : ℕ := cqLength q q.beginPos q.endPos

def CQ.used (q : CQ) : List UInt8 := ringSlice q.data q.size q.beginPos q.length

@[simp] theorem used_length (q : CQ) : q.used.length = q.length := ringSlice_length

theorem cqLength_at {q : CQ} {b n : ℕ} (hb : b < q.size) (hn : n < q.size) :
    cqLength q b ((b + n) % q.size) = n := by
  rw [ring_end hb hn, cqLength]
  split
  · rw [if_pos (Nat.le_add_right ..), Nat.add_sub_cancel_left]
  · rw [if_neg (by omega)]
    omega

variable {q : CQ}

theorem CQ.Sound.cqSize_eq (h : q.Sound) : cqSize q + 4 = q.size := by
  have hsize := h.size_le
  rw [cqSize, agCodequeueReserve, if_pos hsize]
  omega

theorem CQ.Sound.length_lt (h : q.Sound) : q.length < q.size := by
  have hb := h.begin_lt
  have he := h.end_lt
  rw [CQ.length, cqLength]
  split
  · omega
  · omega

theorem CQ.Sound.end_eq (h : q.Sound) : q.endPos = (q.beginPos + q.length) % q.size := by
  have hb := h.begin_lt
  have he := h.end_lt
  rw [ring_end hb h.length_lt, CQ.length, cqLength]
  split
  · rw [if_pos (by omega)]
    omega
  · rw [if_neg (by omega)]
    omega

theorem CQ.Sound.empty_iff (h : q.Sound) : q.beginPos = q.endPos ↔ q.used = [] := by
  have hb := h.begin_lt
  have he := h.end_lt
  rw [← length_eq_zero_iff, used_length, CQ.length, cqLength]
  split
  · omega
  · omega

theorem CQ.Sound.advance (h : q.Sound) {n : ℕ} (hn : n ≤ q.length) :
    CQ.Sound { q with beginPos := (q.beginPos + n) % q.size } ∧
    CQ.used { q with beginPos := (q.beginPos + n) % q.size } = q.used.drop n := by
  have hlen := h.length_lt
  have hlt : (q.beginPos + n) % q.size < q.size := mod_lt _ (by omega)
  have hlength : CQ.length { q with beginPos := (q.beginPos + n) % q.size } = q.length - n := by
    have hend : q.endPos = ((q.beginPos + n) % q.size + (q.length - n)) % q.size := by
      rw [mod_add_mod, h.end_eq]
      congr 1
      omega
    have hat := cqLength_at (q := { q with beginPos := (q.beginPos + n) % q.size }) hlt
      (show q.length - n < q.size by omega)
    rw [CQ.length]
    simp only at hat ⊢
    rw [hend]
    exact hat
  refine ⟨⟨h.size_le, hlt, h.end_lt⟩, ?_⟩
  have hsplit : q.used = ringSlice q.data q.size q.beginPos n ++
      ringSlice q.data q.size (q.beginPos + n) (q.length - n) := by
    rw [CQ.used, ← ringSlice_add]
    congr 1
    omega
  rw [CQ.used, hlength, hsplit, drop_left' ringSlice_length]
  simp only
  rw [ringSlice_mod]

def popBytes (bytes : List UInt8) (len : ℕ) : List UInt8 × PopResult :=
  if bytes = [] then (bytes, ⟨.empty, 0, []⟩)
  else if bytes.length < 4 then ([], ⟨.shortHead, 0, []⟩)
  else if len = 0 ∨ len < ofLe32 (bytes.take 4) then (bytes, ⟨.small, ofLe32 (bytes.take 4), []⟩)
  else if 0 < ofLe32 (bytes.take 4) then
    if bytes.length - 4 < ofLe32 (bytes.take 4) then ([], ⟨.shortBody, 0, []⟩)
    else (bytes.drop (4 + ofLe32 (bytes.take 4)),
      ⟨.taken, ofLe32 (bytes.take 4), (bytes.drop 4).take (ofLe32 (bytes.take 4))⟩)
  else (bytes.drop 4, ⟨.taken, ofLe32 (bytes.take 4), []⟩)

theorem CQ.used_take {n : ℕ} (hn : n ≤ q.length) : q.used.take n = ringSlice q.data q.size q.beginPos n := by
  have hsplit : q.length = n + (q.length - n) := by omega
  rw [CQ.used, hsplit, ringSlice_add, take_left' ringSlice_length]

theorem CQ.used_drop_take {n k : ℕ} (hn : n + k ≤ q.length) :
    (q.used.drop n).take k = ringSlice q.data q.size (q.beginPos + n) k := by
  have hsplit : q.length = n + (k + (q.length - (n + k))) := by omega
  rw [CQ.used, hsplit, ringSlice_add, ringSlice_add, drop_left' ringSlice_length,
    take_left' ringSlice_length]

theorem CQ.Sound.discard (h : q.Sound) :
    CQ.Sound (setCriticalData q (some q.endPos) none) ∧
    CQ.used (setCriticalData q (some q.endPos) none) = [] := by
  have hset : setCriticalData q (some q.endPos) none = { q with beginPos := q.endPos } := by
    simp only [setCriticalData, h.end_lt, if_true]
  have hsound : CQ.Sound { q with beginPos := q.endPos } := ⟨h.size_le, h.end_lt, h.end_lt⟩
  rw [hset]
  exact ⟨hsound, hsound.empty_iff.mp rfl⟩

theorem agCQPop_used (h : q.Sound) (len : ℕ) :
    ∃ q', agCQPop q len = .ok (q', (popBytes q.used len).2) ∧ q'.Sound ∧ q'.used = (popBytes q.used len).1 := by
  have hsize := h.size_le
  have hlt := h.length_lt
  have hlen := used_length q
  by_cases hempty : q.used = []
  · refine ⟨q, ?_, h, ?_⟩
    · rw [agCQPop, if_pos (h.empty_iff.mpr hempty), popBytes, if_pos hempty]
    · rw [popBytes, if_pos hempty]
  have hne : q.beginPos ≠ q.endPos := fun he => hempty (h.empty_iff.mp he)
  by_cases hshort : q.length < 4
  · have hpop : agCQPop q len = .ok (setCriticalData q (some q.endPos) none, ⟨.shortHead, 0, []⟩) := by
      have hshort' : cqLength q q.beginPos q.endPos < 4 := hshort
      simp only [agCQPop, hne, if_false, hshort', if_true]
    simp only [popBytes, hempty, if_false, hlen, hshort, if_true]
    exact ⟨_, hpop, h.discard⟩
  have hshort' : ¬ cqLength q q.beginPos q.endPos < 4 := hshort
  have htake : q.used.take 4 = ringSlice q.data q.size q.beginPos 4 := CQ.used_take (by omega)
  have hhead := cqRead_ok h.begin_lt hsize
  rw [← htake] at hhead
  by_cases hsmall : len = 0 ∨ len < ofLe32 (q.used.take 4)
  · refine ⟨q, ?_, h, ?_⟩
    · simp only [agCQPop, hne, if_false, hshort', hhead, ok_bind, hsmall, if_true, popBytes, hempty, hlen, hshort]
    · simp only [popBytes, hempty, if_false, hlen, hshort, hsmall, if_true]
  by_cases hpos : 0 < ofLe32 (q.used.take 4)
  · by_cases hbody : q.length - 4 < ofLe32 (q.used.take 4)
    · have hpop : agCQPop q len = .ok (setCriticalData q (some q.endPos) none, ⟨.shortBody, 0, []⟩) := by
        have hbody' : cqLength q q.beginPos q.endPos - 4 < ofLe32 (q.used.take 4) := hbody
        simp only [agCQPop, hne, if_false, hshort', hhead, ok_bind, hsmall, hpos, hbody', if_true]
      simp only [popBytes, hempty, if_false, hlen, hshort, hsmall, hpos, hbody, if_true]
      exact ⟨_, hpop, h.discard⟩
    · have hfit : 4 + ofLe32 (q.used.take 4) ≤ q.length := by omega
      have hpop : agCQPop q len = .ok ({ q with beginPos := (q.beginPos + (4 + ofLe32 (q.used.take 4))) % q.size },
          ⟨.taken, ofLe32 (q.used.take 4), (q.used.drop 4).take (ofLe32 (q.used.take 4))⟩) := by
        have hbody' : ¬ cqLength q q.beginPos q.endPos - 4 < ofLe32 (q.used.take 4) := hbody
        have hread := @cqRead_ok q ((q.beginPos + 4) % q.size) (ofLe32 (q.used.take 4))
          (mod_lt _ (by omega)) (by omega)
        rw [ringSlice_mod, ← CQ.used_drop_take hfit, mod_add_mod, Nat.add_assoc] at hread
        have hlast : (q.beginPos + (4 + ofLe32 (q.used.take 4))) % q.size < q.size := mod_lt _ (by omega)
        simp only [agCQPop, hne, if_false, hshort', hhead, ok_bind, hsmall, hpos, hbody', if_true, hread,
          setCriticalData, hlast]
      simp only [popBytes, hempty, if_false, hlen, hshort, hsmall, hpos, hbody, if_true]
      exact ⟨_, hpop, h.advance hfit⟩
  · have hpop : agCQPop q len = .ok ({ q with beginPos := (q.beginPos + 4) % q.size },
        ⟨.taken, ofLe32 (q.used.take 4), []⟩) := by
      have hlast : (q.beginPos + 4) % q.size < q.size := mod_lt _ (by omega)
      simp only [agCQPop, hne, if_false, hshort', hhead, ok_bind, hsmall, hpos, setCriticalData, hlast, if_true]
    simp only [popBytes, hempty, if_false, hlen, hshort, hsmall, hpos]
    exact ⟨_, hpop, h.advance (by omega)⟩

theorem pops_used (lens : List ℕ) (h : q.Sound) :
    ∃ q', exec agCQPop q lens = .ok (q', (specExec popBytes q.used lens).2) := by
  obtain ⟨q', hexec, -⟩ := exec_simulates (R := fun q bytes => q.Sound ∧ q.used = bytes)
    (fun q bytes len hq => by
      obtain ⟨q', hpop, hq'⟩ := agCQPop_used hq.1 len
      rw [hq.2] at hpop hq'
      exact ⟨q', hpop, hq'⟩) lens q q.used ⟨h, rfl⟩
  exact ⟨q', hexec⟩

theorem samePops_iff {q₁ q₂ : CQ} (h₁ : q₁.Sound) (h₂ : q₂.Sound) :
    SamePops q₁ q₂ ↔ ∀ lens, (specExec popBytes q₁.used lens).2 = (specExec popBytes q₂.used lens).2 := by
  refine forall_congr' fun lens => ?_
  obtain ⟨q₁', hexec₁⟩ := pops_used lens h₁
  obtain ⟨q₂', hexec₂⟩ := pops_used lens h₂
  constructor
  · rintro ⟨_, _, outs, he₁, he₂⟩
    rw [hexec₁, ok_pair_iff] at he₁
    rw [hexec₂, ok_pair_iff] at he₂
    rw [he₁.2, he₂.2]
  · intro heq
    rw [← heq] at hexec₂
    exact ⟨q₁', q₂', _, hexec₁, hexec₂⟩

theorem samePops_of_used {q₁ q₂ : CQ} (h₁ : q₁.Sound) (h₂ : q₂.Sound) (h : q₁.used = q₂.used) :
    SamePops q₁ q₂ := by
  rw [samePops_iff h₁ h₂, h]
  exact fun _ => rfl

/-! ### Whole messages are told apart -/

theorem popBytes_small {n : ℕ} (hn : n < 2 ^ 32) (rest : List UInt8) :
    popBytes (le32 n ++ rest) 0 = (le32 n ++ rest, ⟨.small, n, []⟩) := by
  have hne : le32 n ++ rest ≠ [] := by simp [le32]
  have hlong : ¬ (le32 n ++ rest).length < 4 := by
    rw [length_append, le32_length]
    omega
  have htake : ofLe32 ((le32 n ++ rest).take 4) = n := by
    rw [take_left' (le32_length n), ofLe32_le32 hn]
  simp only [popBytes, hne, if_false, hlong, true_or, if_true, htake]

theorem popBytes_taken {bs : List UInt8} (hbs : bs.length < 2 ^ 32) (rest : List UInt8) :
    popBytes (frame bs ++ rest) (bs.length + 1) = (rest, ⟨.taken, bs.length, bs⟩) := by
  have hne : frame bs ++ rest ≠ [] := by simp [frame, le32]
  have hlen : (frame bs ++ rest).length = bs.length + 4 + rest.length := by
    rw [length_append, frame_length]
  have hlong : ¬ bs.length + 4 + rest.length < 4 := by omega
  have htake : ofLe32 ((frame bs ++ rest).take 4) = bs.length := by
    rw [frame, append_assoc, take_left' (le32_length _), ofLe32_le32 hbs]
  have hroom : ¬ (bs.length + 1 = 0 ∨ bs.length + 1 < bs.length) := by omega
  have hdrop : (frame bs ++ rest).drop 4 = bs ++ rest := by
    rw [frame, append_assoc, drop_left' (le32_length _)]
  simp only [popBytes, hne, if_false, hlen, hlong, htake, hroom, hdrop]
  by_cases hpos : 0 < bs.length
  · have hbody : ¬ bs.length + 4 + rest.length - 4 < bs.length := by omega
    simp only [hpos, if_true, hbody, if_false, ← drop_drop, hdrop, drop_left, take_left]
  · have hnil : bs = [] := length_eq_zero_iff.mp (by omega)
    subst hnil
    simp only [length_nil, lt_irrefl, if_false, nil_append]

theorem popBytes_exit_empty {bytes : List UInt8} {len : ℕ} (h : (popBytes bytes len).2.exit = .empty) :
    bytes = [] := by
  by_contra hne
  simp only [popBytes, hne, if_false] at h
  split at h
  · nomatch h
  split at h
  · nomatch h
  split at h
  · split at h
    · nomatch h
    · nomatch h
  · nomatch h

theorem popBytes_exit_small {bytes : List UInt8} {len : ℕ} (h : (popBytes bytes len).2.exit = .small) :
    bytes = le32 (popBytes bytes len).2.ret ++ bytes.drop 4 := by
  by_cases hne : bytes = []
  · simp [popBytes, hne] at h
  by_cases hlong : bytes.length < 4
  · simp [popBytes, hne, hlong] at h
  by_cases hsmall : len = 0 ∨ len < ofLe32 (bytes.take 4)
  · have htake : (bytes.take 4).length = 4 := by
      rw [length_take]
      omega
    simp only [popBytes, hne, if_false, hlong, hsmall, if_true, le32_ofLe32 htake, take_append_drop]
  · simp only [popBytes, hne, if_false, hlong, hsmall] at h
    split at h
    · split at h
      · nomatch h
      · nomatch h
    · nomatch h

theorem popBytes_exit_taken {bs : List UInt8} (hbs : bs.length < 2 ^ 32) (rest : List UInt8)
    (h : (popBytes (le32 bs.length ++ rest) (bs.length + 1)).2 = ⟨.taken, bs.length, bs⟩) :
    le32 bs.length ++ rest = frame bs ++ (popBytes (le32 bs.length ++ rest) (bs.length + 1)).1 := by
  have hne : le32 bs.length ++ rest ≠ [] := by simp [le32]
  have hlen : (le32 bs.length ++ rest).length = 4 + rest.length := by rw [length_append, le32_length]
  have hlong : ¬ 4 + rest.length < 4 := by omega
  have htake : ofLe32 ((le32 bs.length ++ rest).take 4) = bs.length := by
    rw [take_left' (le32_length _), ofLe32_le32 hbs]
  have hroom : ¬ (bs.length + 1 = 0 ∨ bs.length + 1 < bs.length) := by omega
  have hdrop : (le32 bs.length ++ rest).drop 4 = rest := drop_left' (le32_length _)
  simp only [popBytes, hne, if_false, hlen, hlong, htake, hroom, hdrop] at h ⊢
  by_cases hpos : 0 < bs.length
  · by_cases hbody : 4 + rest.length - 4 < bs.length
    · simp only [hpos, if_true, hbody] at h
      cases h
    · simp only [hpos, if_true, hbody, if_false, PopResult.mk.injEq, true_and, ← drop_drop, hdrop] at h ⊢
      have hsplit := take_append_drop bs.length rest
      rw [h] at hsplit
      rw [frame, append_assoc, hsplit]
  · have hnil : bs = [] := length_eq_zero_iff.mp (by omega)
    subst hnil
    simp [frame]

theorem bytes_of_pops {ms : List (List UInt8)} (hsmall : ∀ bs ∈ ms, bs.length < 2 ^ 32) (bytes : List UInt8)
    (h : ∀ lens, (specExec popBytes bytes lens).2 = (specExec popBytes (stored ms) lens).2) :
    bytes = stored ms := by
  induction ms generalizing bytes with
  | nil =>
    have h0 := congrArg (fun outs => outs.map PopResult.exit) (h [0])
    simp only [specExec, map_cons, map_nil, cons.injEq, and_true] at h0
    exact popBytes_exit_empty h0
  | cons bs ms ih =>
    have hbs : bs.length < 2 ^ 32 := hsmall bs mem_cons_self
    -- a pop without a buffer reports the length, a pop with one takes the message
    have hlook := h [0]
    rw [stored_cons, frame, append_assoc] at hlook
    simp only [specExec, cons.injEq, and_true, popBytes_small hbs] at hlook
    have hhead := popBytes_exit_small (congrArg PopResult.exit hlook)
    rw [hlook] at hhead
    have htake := h [bs.length + 1]
    rw [stored_cons] at htake
    simp only [specExec, cons.injEq, and_true, popBytes_taken hbs] at htake
    rw [hhead] at htake
    have hframe := popBytes_exit_taken hbs _ htake
    rw [← hhead] at hframe
    have hrest : (popBytes bytes (bs.length + 1)).1 = stored ms := by
      apply ih fun m hm => hsmall m (mem_cons_of_mem _ hm)
      intro lens
      have hlens := h ((bs.length + 1) :: lens)
      rw [stored_cons] at hlens
      simp only [specExec, popBytes_taken hbs, cons.injEq] at hlens
      exact hlens.2
    rw [hframe, hrest, stored_cons]

/-! ## One vector push -/

theorem fitting_zero (args : List (List UInt8)) : fitting 0 args = [] := by
  induction args with
  | nil => rfl
  | cons data args ih =>
    rw [fitting, Nat.zero_sub, ih, append_nil]
    split
    · next h => exact length_eq_zero_iff.mp (by omega)
    · rfl

theorem fitting_length_le (room : ℕ) (args : List (List UInt8)) : (fitting room args).length ≤ room := by
  induction args generalizing room with
  | nil => exact Nat.zero_le _
  | cons data args ih =>
    rw [fitting]
    split
    · have := ih (room - data.length)
      rw [length_append]
      omega
    · exact Nat.zero_le _

/-- The loop from `n` bytes after `begin` on: either a fragment is refused, with those before it
written, or all are written. -/
theorem agCQPushvLoop_eq (h : q.Sound) (args : List (List UInt8)) :
    ∀ (data : Mem) (n tlen : ℕ), n < q.size →
      agCQPushvLoop { q with data := data } ((q.beginPos + n) % q.size) tlen args =
        if args ≠ [] ∧ cqSize q < n + args.flatten.length then
          .ok ({ q with data := ringBlit data q.size (q.beginPos + n) (fitting (cqSize q - n) args) }, none)
        else
          .ok ({ q with data := ringBlit data q.size (q.beginPos + n) args.flatten },
            some ((q.beginPos + n + args.flatten.length) % q.size, tlen + args.flatten.length)) := by
  have hsize := h.cqSize_eq
  have hb := h.begin_lt
  induction args with
  | nil =>
    intro data n tlen hn
    have hnot : ¬ (([] : List (List UInt8)) ≠ [] ∧ cqSize q < n + ([] : List (List UInt8)).flatten.length) :=
      fun hc => hc.1 rfl
    rw [if_neg hnot]
    rfl
  | cons bs args ih =>
    intro data n tlen hn
    have hat := cqLength_at (q := { q with data := data }) hb hn
    have hcq : cqSize { q with data := data } = cqSize q := rfl
    have hcons : (bs :: args) ≠ [] := cons_ne_nil _ _
    have hflat : (bs :: args).flatten.length = bs.length + args.flatten.length := by
      rw [flatten_cons, length_append]
    simp only at hat
    simp only [agCQPushvLoop, hat, hcq, hflat]
    by_cases hrefuse : cqSize q < n + bs.length
    · have hfit : fitting (cqSize q - n) (bs :: args) = [] := by
        rw [fitting]
        split
        · next hle =>
          have hnil : bs = [] := length_eq_zero_iff.mp (by omega)
          have hzero : cqSize q - n - bs.length = 0 := by omega
          rw [hzero, fitting_zero, hnil, append_nil]
        · rfl
      rw [if_pos hrefuse, if_pos ⟨hcons, by omega⟩, hfit]
      rfl
    · have hlt : (q.beginPos + n) % q.size < q.size := mod_lt _ (by omega)
      have hwrite := @cqWrite_ok { q with data := data } ((q.beginPos + n) % q.size) bs hlt (by simp only; omega)
      have hmod := @ringBlit_mod data q.size _ _ bs (mod_mod (q.beginPos + n) q.size)
      simp only at hwrite
      rw [hmod, mod_add_mod, Nat.add_assoc] at hwrite
      rw [if_neg hrefuse, hwrite, ok_bind]
      simp only
      rw [ih _ _ _ (by omega)]
      have hfit : fitting (cqSize q - n) (bs :: args) = bs ++ fitting (cqSize q - (n + bs.length)) args := by
        rw [fitting, if_pos (by omega), Nat.sub_sub]
      have hnext : q.beginPos + n + bs.length = q.beginPos + (n + bs.length) := by omega
      have hlast : q.beginPos + (n + bs.length) + args.flatten.length =
          q.beginPos + n + (bs.length + args.flatten.length) := by omega
      rw [hfit, flatten_cons, ringBlit_append, ringBlit_append, hnext, hlast, Nat.add_assoc tlen]
      by_cases hnil : args = []
      · subst hnil
        have hnot : ¬ cqSize q < n + (bs.length + ([] : List (List UInt8)).flatten.length) := hrefuse
        rw [if_neg fun hc => hc.1 rfl, if_neg fun hc => hnot hc.2]
      · simp only [hnil, hcons, ne_eq, not_false_eq_true, true_and, Nat.add_assoc n]

theorem agCQPushv_eq (h : q.Sound) (args : List (List UInt8)) :
    agCQPushv q args =
      if args ≠ [] ∧ cqSize q < (q.length + 4) % q.size + args.flatten.length then
        .ok ({ q with
          data := ringBlit q.data q.size (q.endPos + 4) (fitting (cqSize q - (q.length + 4) % q.size) args) }, 0)
      else
        .ok ({ q with
          data := blit (ringBlit q.data q.size (q.endPos + 4) args.flatten) 0 (head args.flatten)
          endPos := (q.endPos + (args.flatten.length + 4)) % q.size }, args.flatten.length) := by
  have hsize := h.size_le
  have hn : (q.length + 4) % q.size < q.size := mod_lt _ (by omega)
  have hstart : (q.beginPos + (q.length + 4) % q.size) % q.size = (q.endPos + 4) % q.size := by
    rw [add_mod_mod, h.end_eq, mod_add_mod]
    congr 1
  have hend : (q.beginPos + (q.length + 4) % q.size + args.flatten.length) % q.size =
      (q.endPos + (args.flatten.length + 4)) % q.size := by
    rw [← mod_add_mod, hstart, mod_add_mod]
    congr 1
    omega
  have hloop := agCQPushvLoop_eq h args q.data ((q.length + 4) % q.size) 0 hn
  rw [hstart, hend, ringBlit_mod _ hstart, ringBlit_mod _ hstart, Nat.zero_add] at hloop
  simp only [agCQPushv, hloop]
  by_cases hrefuse : args ≠ [] ∧ cqSize q < (q.length + 4) % q.size + args.flatten.length
  · rw [if_pos hrefuse, if_pos hrefuse, ok_bind]
  · have hlast : (q.endPos + (args.flatten.length + 4)) % q.size < q.size := mod_lt _ (by omega)
    have hhead := @cqWrite_ok { q with data := ringBlit q.data q.size (q.endPos + 4) args.flatten } 0
      (head args.flatten) (by simp only; omega) (by simp only [head, le32_length]; omega)
    have hblit : ∀ m : Mem, ringBlit m q.size 0 (head args.flatten) = blit m 0 (head args.flatten) := fun m =>
      (blit_eq_ringBlit (by rw [head, le32_length]; omega)).symm
    simp only [hblit] at hhead
    rw [if_neg hrefuse, if_neg hrefuse, ok_bind]
    simp only
    rw [← head, hhead]
    simp only [ok_bind, setCriticalData, hlast, if_true]

theorem CQ.Sound.extend (h : q.Sound) {n : ℕ} (hn : q.length + n < q.size) (m : Mem) :
    CQ.Sound { q with data := m, endPos := (q.endPos + n) % q.size } ∧
    CQ.used { q with data := m, endPos := (q.endPos + n) % q.size } =
      ringSlice m q.size q.beginPos q.length ++ ringSlice m q.size q.endPos n := by
  have hend : (q.endPos + n) % q.size = (q.beginPos + (q.length + n)) % q.size := by
    nth_rewrite 1 [h.end_eq]
    rw [mod_add_mod, Nat.add_assoc]
  have hlength : CQ.length { q with data := m, endPos := (q.endPos + n) % q.size } = q.length + n := by
    have hat := cqLength_at (q := { q with data := m, endPos := (q.endPos + n) % q.size }) h.begin_lt hn
    rw [CQ.length]
    simp only at hat ⊢
    rw [hend]
    exact hat
  have hfrom : ringSlice m q.size q.endPos n = ringSlice m q.size (q.beginPos + q.length) n := by
    nth_rewrite 1 [h.end_eq]
    exact ringSlice_mod
  refine ⟨⟨h.size_le, h.begin_lt, mod_lt _ (by omega)⟩, ?_⟩
  rw [CQ.used, hlength, hfrom]
  exact ringSlice_add _ _

section Room
variable {body : List UInt8}

theorem head_length (body : List UInt8) : (head body).length = 4 := le32_length _

theorem used_push (h : q.Sound) (hroom : q.length + body.length + 4 ≤ cqSize q) :
    CQ.used { q with
      data := ringBlit q.data q.size q.endPos (head body ++ body)
      endPos := (q.endPos + (body.length + 4)) % q.size } = q.used ++ (head body ++ body) := by
  have hsize := h.cqSize_eq
  have hlen : (head body ++ body).length = body.length + 4 := by
    rw [length_append, head_length, Nat.add_comm]
  have hfrom : ringBlit q.data q.size q.endPos (head body ++ body) =
      ringBlit q.data q.size (q.beginPos + q.length) (head body ++ body) := by
    refine ringBlit_mod _ ?_
    nth_rewrite 1 [h.end_eq]
    rw [mod_mod]
  have hold : ringSlice (ringBlit q.data q.size q.endPos (head body ++ body)) q.size q.beginPos q.length = q.used := by
    rw [hfrom, ringSlice_ringBlit_before (by omega), CQ.used]
  have hnew : ringSlice (ringBlit q.data q.size q.endPos (head body ++ body)) q.size q.endPos (body.length + 4) =
      head body ++ body := by
    rw [← hlen]
    exact ringSlice_ringBlit (by omega)
  rw [(h.extend (show q.length + (body.length + 4) < q.size by omega) _).2, hold, hnew]

theorem blit_head (m : Mem) (x : ℕ) :
    blit m 0 (head body) x = if x < 4 then (head body).getD x 0 else m x := by
  simp only [blit, Nat.zero_le, true_and, head_length, Nat.zero_add, Nat.sub_zero]

theorem CQ.Sound.before_body (h : q.Sound) (hroom : q.length + body.length + 4 ≤ cqSize q) {d : ℕ}
    (hd : d < q.length + 4) :
    ringBlit q.data q.size (q.endPos + 4) body ((q.beginPos + d) % q.size) = q.data ((q.beginPos + d) % q.size) := by
  have hsize := h.cqSize_eq
  refine ringBlit_outside fun i hi he => ?_
  have hfrom : (q.endPos + 4 + i) % q.size = (q.beginPos + (q.length + 4 + i)) % q.size := by
    nth_rewrite 1 [h.end_eq]
    rw [Nat.add_assoc, mod_add_mod]
    congr 1
    omega
  rw [hfrom] at he
  have := ring_index_inj (by omega) (by omega) he
  omega

theorem ringSlice_head_body (hroom : body.length ≤ q.size) :
    ringSlice (blit (ringBlit q.data q.size (q.endPos + 4) body) 0 (head body)) q.size (q.endPos + 4)
      body.length = body ↔
    ∀ i < body.length, (q.endPos + 4 + i) % q.size < 4 →
      body.getD i 0 = (head body).getD ((q.endPos + 4 + i) % q.size) 0 := by
  have hbody := ringSlice_eq_iff.mp (ringSlice_ringBlit (m := q.data) (p := q.endPos + 4) hroom)
  rw [ringSlice_eq_iff]
  refine forall_congr' fun i => forall_congr' fun hi => ?_
  rw [blit_head]
  split
  · next hlt => exact ⟨fun he _ => he.symm, fun he => (he hlt).symm⟩
  · next hge => exact ⟨fun _ hlt => absurd hlt hge, fun _ => hbody i hi⟩

/-- Where there is room the used bytes after the two ways to push are the same exactly where the
length at offset 0 does no harm. -/
theorem used_pushv_iff (h : q.Sound) (hroom : q.length + body.length + 4 ≤ cqSize q) :
    CQ.used { q with
      data := blit (ringBlit q.data q.size (q.endPos + 4) body) 0 (head body)
      endPos := (q.endPos + (body.length + 4)) % q.size } = q.used ++ (head body ++ body) ↔
    HeadInPlace q body := by
  have hsize := h.cqSize_eq
  have hfrom : ∀ i, (q.endPos + i) % q.size = (q.beginPos + (q.length + i)) % q.size := fun i => by
    nth_rewrite 1 [h.end_eq]
    rw [mod_add_mod, Nat.add_assoc]
  have hold : ringSlice (blit (ringBlit q.data q.size (q.endPos + 4) body) 0 (head body)) q.size q.beginPos
      q.length = ringSlice (blit q.data 0 (head body)) q.size q.beginPos q.length := by
    refine ringSlice_congr rfl fun i hi => ?_
    rw [blit_head, blit_head, h.before_body hroom (by omega)]
  have hskipped : ringSlice (blit (ringBlit q.data q.size (q.endPos + 4) body) 0 (head body)) q.size q.endPos 4 =
      ringSlice (blit q.data 0 (head body)) q.size q.endPos 4 := by
    refine ringSlice_congr rfl fun i hi => ?_
    rw [blit_head, blit_head, hfrom, h.before_body hroom (by omega)]
  rw [(h.extend (show q.length + (body.length + 4) < q.size by omega) _).2, Nat.add_comm body.length 4,
    ringSlice_add, hold, hskipped]
  constructor
  · intro heq
    obtain ⟨hqueued, hrest⟩ := append_inj heq (by rw [ringSlice_length, used_length])
    obtain ⟨hhead, hbody⟩ := append_inj hrest (by rw [ringSlice_length, head_length])
    exact ⟨hhead, hqueued, (ringSlice_head_body (by omega)).mp hbody⟩
  · rintro ⟨hhead, hqueued, hbody⟩
    rw [hhead, (ringSlice_head_body (by omega)).mpr hbody]
    congr 1

end Room

/-! ## Agreement -/

/-- The two ways to push from `q` return the same value and leave the same used bytes at the same
place. -/
structure SameBytes (q : CQ) (args : List (List UInt8)) (qv qp : CQ) (ret : ℕ) : Prop where
  pushv : agCQPushv q args = .ok (qv, ret)
  push : agCQPush q args.flatten = .ok (qp, ret)
  pushv_sound : qv.Sound
  push_sound : qp.Sound
  size_eq : qv.size = qp.size
  begin_eq : qv.beginPos = qp.beginPos
  end_eq : qv.endPos = qp.endPos
  used_eq : qv.used = qp.used
  refused : ret = 0 → args.flatten ≠ [] → qp = q

theorem agCQPush_refused {bs : List UInt8} (hroom : ¬ q.length + bs.length + 4 ≤ cqSize q) :
    agCQPush q bs = .ok (q, 0) := by
  have hfull : cqSize q < cqLength q q.beginPos q.endPos + bs.length + 4 := not_le.mp hroom
  simp only [agCQPush, hfull, if_true]

theorem used_refused (h : q.Sound) (args : List (List UInt8)) (hlt : q.length < cqSize q) :
    CQ.used { q with data := ringBlit q.data q.size (q.endPos + 4) (fitting (cqSize q - (q.length + 4)) args) } =
      q.used := by
  by_cases hskip : q.length + 4 ≤ cqSize q
  · have hfit := fitting_length_le (cqSize q - (q.length + 4)) args
    exact ringSlice_congr rfl fun i (hi : i < q.length) => h.before_body (by omega) (by omega)
  · have hzero : cqSize q - (q.length + 4) = 0 := by omega
    rw [hzero, fitting_zero]
    rfl

theorem used_overwritten (h : q.Sound) {bs : List UInt8} (hfull : q.length = cqSize q) (hbs : bs.length ≤ cqSize q) :
    CQ.used { q with data := ringBlit q.data q.size (q.endPos + 4) bs } = q.used ↔
      ringSlice q.data q.size q.beginPos bs.length = bs := by
  have hsize := h.cqSize_eq
  have hstart : (q.endPos + 4) % q.size = q.beginPos % q.size := by
    nth_rewrite 1 [h.end_eq]
    rw [mod_add_mod, hfull, Nat.add_assoc, hsize, add_mod_right]
  have hsplit : q.length = bs.length + (q.length - bs.length) := by omega
  have hnew : CQ.used { q with data := ringBlit q.data q.size (q.endPos + 4) bs } =
      bs ++ ringSlice q.data q.size (q.beginPos + bs.length) (q.length - bs.length) := by
    have hdef : CQ.used { q with data := ringBlit q.data q.size (q.endPos + 4) bs } =
        ringSlice (ringBlit q.data q.size q.beginPos bs) q.size q.beginPos q.length := by
      rw [← ringBlit_mod bs hstart]
      rfl
    rw [hdef, hsplit, ringSlice_add, ringSlice_ringBlit (by omega), ringSlice_ringBlit_after (by omega), ← hsplit]
  have hold : q.used = ringSlice q.data q.size q.beginPos bs.length ++
      ringSlice q.data q.size (q.beginPos + bs.length) (q.length - bs.length) := by
    rw [CQ.used]
    nth_rewrite 1 [hsplit]
    exact ringSlice_add _ _
  rw [hnew, hold]
  constructor
  · intro heq
    exact (append_inj heq (by rw [ringSlice_length])).1.symm
  · intro heq
    rw [heq]

theorem sameBytes_of_safe (h : q.Sound) {args : List (List UInt8)} (hsafe : PushvSafe q args) :
    ∃ qv qp ret, SameBytes q args qv qp ret := by
  have hsize := h.cqSize_eq
  have hlt := h.length_lt
  have hpushv := agCQPushv_eq h args
  by_cases hroom : q.length + args.flatten.length + 4 ≤ cqSize q
  · have hin : HeadInPlace q args.flatten := by rwa [PushvSafe, if_pos (by exact hroom)] at hsafe
    have hmod : (q.length + 4) % q.size = q.length + 4 := mod_eq_of_lt (by omega)
    rw [hmod, if_neg (fun hc => by omega)] at hpushv
    have hext : q.length + (args.flatten.length + 4) < q.size := by omega
    refine ⟨_, _, _, hpushv, agCQPush_write h.end_lt hroom, (h.extend hext _).1, (h.extend hext _).1, rfl, rfl, rfl,
      ?_, ?_⟩
    · rw [(used_pushv_iff h hroom).mpr hin]
      exact (used_push h hroom).symm
    · intro hzero hne
      exact absurd (length_eq_zero_iff.mp hzero) hne
  have hpush := agCQPush_refused hroom
  rw [PushvSafe, if_neg (by exact hroom)] at hsafe
  by_cases hfull : q.length = cqSize q
  · rw [if_pos (by exact hfull)] at hsafe
    have hmod : (q.length + 4) % q.size = 0 := by rw [hfull, hsize, mod_self]
    rw [hmod, Nat.zero_add, Nat.sub_zero] at hpushv
    by_cases hrefuse : args ≠ [] ∧ cqSize q < args.flatten.length
    · rw [if_pos hrefuse] at hpushv
      refine ⟨_, q, 0, hpushv, hpush, ⟨h.size_le, h.begin_lt, h.end_lt⟩, h, rfl, rfl, rfl, ?_, fun _ _ => rfl⟩
      rw [used_overwritten h hfull (fitting_length_le _ _)]
      rcases hsafe with hzero | ⟨-, hthere⟩
      · rw [hzero, fitting_zero]
        rfl
      · exact hthere
    · -- only a ring without room for any byte accepts, and then only nothing
      have hflat : args.flatten.length = 0 := by
        by_contra hne
        refine hrefuse ⟨fun hnil => hne (by rw [hnil]; rfl), ?_⟩
        rcases hsafe with hzero | ⟨hmore, -⟩
        · omega
        · exact hmore
      have hzero : cqSize q = 0 := by
        rcases hsafe with hzero | ⟨hmore, -⟩
        · exact hzero
        · omega
      have hend : (q.endPos + (0 + 4)) % q.size = q.endPos := by
        have hfour : q.size = 4 := by omega
        have he := h.end_lt
        rw [hfour]
        omega
      have hempty : q.beginPos = q.endPos := by
        rw [h.empty_iff, ← length_eq_zero_iff, used_length]
        omega
      rw [if_neg hrefuse, hflat, hend] at hpushv
      have hsound : CQ.Sound { q with
          data := blit (ringBlit q.data q.size (q.endPos + 4) args.flatten) 0 (head args.flatten) } :=
        ⟨h.size_le, h.begin_lt, h.end_lt⟩
      refine ⟨_, q, 0, hpushv, hpush, hsound, h, rfl, rfl, rfl, ?_, fun _ _ => rfl⟩
      rw [hsound.empty_iff.mp hempty, h.empty_iff.mp hempty]
  · rw [if_neg (by exact hfull)] at hsafe
    have hshort : q.length < cqSize q := hsafe.1
    have hmod : (q.length + 4) % q.size = q.length + 4 := mod_eq_of_lt (by omega)
    rw [hmod, if_pos ⟨hsafe.2, by omega⟩] at hpushv
    exact ⟨_, q, 0, hpushv, hpush, ⟨h.size_le, h.begin_lt, h.end_lt⟩, h, rfl, rfl, rfl, used_refused h args hshort,
      fun _ _ => rfl⟩

theorem agrees_of_safe (h : q.Sound) {args : List (List UInt8)} (hsafe : PushvSafe q args) : Agrees q args := by
  obtain ⟨qv, qp, ret, hsame⟩ := sameBytes_of_safe h hsafe
  refine ⟨qv, qp, ret, hsame.pushv, hsame.push,
    samePops_of_used hsame.pushv_sound hsame.push_sound hsame.used_eq, fun hzero hne => ?_⟩
  have hq := hsame.refused hzero hne
  exact samePops_of_used hsame.pushv_sound h (hsame.used_eq.trans (by rw [hq]))

/-! ### The condition is exact on a queue of messages -/

variable {room : ℕ} {ms : List (List UInt8)}

theorem CQ.Holds.sound (h : q.Holds room ms) : q.Sound := by
  have hsize := h.size_eq
  rw [agCodequeueReserve] at hsize
  exact ⟨by omega, h.begin_lt, h.end_lt⟩

theorem CQ.Holds.used_eq (h : q.Holds room ms) : q.used = stored ms := by
  rw [CQ.used, CQ.length, h.length_eq, h.bytes]

theorem used_of_samePops {q₁ q₂ : CQ} (h₁ : q₁.Sound) (h₂ : q₂.Sound) (hpops : SamePops q₁ q₂)
    (hsmall : ∀ bs ∈ ms, bs.length < 2 ^ 32) (hused : q₂.used = stored ms) : q₁.used = stored ms := by
  apply bytes_of_pops hsmall
  rw [← hused]
  exact (samePops_iff h₁ h₂).mp hpops

theorem head_of_small {body : List UInt8} (h : body.length < 2 ^ 32) : head body ++ body = frame body := by
  rw [head, mod_eq_of_lt h, frame]

theorem safe_of_room (h : q.Holds room ms) {args : List (List UInt8)} (htotal : args.flatten.length < 2 ^ 32)
    (hroom : q.length + args.flatten.length + 4 ≤ cqSize q) (hagrees : Agrees q args) : PushvSafe q args := by
  have hsound := h.sound
  have hsize := hsound.cqSize_eq
  have hlt := hsound.length_lt
  have hpushv := agCQPushv_eq hsound args
  obtain ⟨qv, qp, ret, hv, hp, hpops, -⟩ := hagrees
  have hmod : (q.length + 4) % q.size = q.length + 4 := mod_eq_of_lt (by omega)
  have hext : q.length + (args.flatten.length + 4) < q.size := by omega
  rw [hmod, if_neg (fun hc => by omega), hv, ok_pair_iff] at hpushv
  have hpush := agCQPush_write (q := q) h.end_lt hroom
  rw [hp, ok_pair_iff] at hpush
  rw [hpushv.1, hpush.1] at hpops
  have hsmall : ∀ bs ∈ ms ++ [args.flatten], bs.length < 2 ^ 32 := by
    intro bs hbs
    rcases mem_append.mp hbs with hold | hnew
    · exact h.small bs hold
    · rw [mem_singleton.mp hnew]
      exact htotal
  have hstored : q.used ++ (head args.flatten ++ args.flatten) = stored (ms ++ [args.flatten]) := by
    rw [h.used_eq, head_of_small htotal, stored_append_one]
  have hused := used_of_samePops (hsound.extend hext _).1 (hsound.extend hext _).1 hpops hsmall
    ((used_push hsound hroom).trans hstored)
  rw [PushvSafe, if_pos (by exact hroom)]
  exact (used_pushv_iff hsound hroom).mp (hused.trans hstored.symm)

theorem safe_of_full (h : q.Holds room ms) {args : List (List UInt8)}
    (hroom : ¬ q.length + args.flatten.length + 4 ≤ cqSize q) (hfull : q.length = cqSize q) (hagrees : Agrees q args) :
    PushvSafe q args := by
  have hsound := h.sound
  have hsize := hsound.cqSize_eq
  have hlt := hsound.length_lt
  have hpushv := agCQPushv_eq hsound args
  obtain ⟨qv, qp, ret, hv, hp, hpops, -⟩ := hagrees
  have hpush := agCQPush_refused hroom
  rw [hp, ok_pair_iff] at hpush
  obtain ⟨rfl, rfl⟩ := hpush
  rw [PushvSafe, if_neg (by exact hroom), if_pos (by exact hfull)]
  by_cases hzero : cqSize qp = 0
  · exact .inl hzero
  have hmod : (qp.length + 4) % qp.size = 0 := by rw [hfull, hsize, mod_self]
  rw [hmod, Nat.zero_add, Nat.sub_zero] at hpushv
  by_cases hrefuse : args ≠ [] ∧ cqSize qp < args.flatten.length
  · rw [if_pos hrefuse, hv, ok_pair_iff] at hpushv
    have hsv : qv.Sound := by
      rw [hpushv.1]
      exact ⟨hsound.size_le, h.begin_lt, h.end_lt⟩
    have hused := used_of_samePops hsv hsound hpops h.small h.used_eq
    rw [hpushv.1] at hused
    exact .inr ⟨hrefuse.2, (used_overwritten hsound hfull (fitting_length_le _ _)).mp (hused.trans h.used_eq.symm)⟩
  · rw [if_neg hrefuse, hv, ok_pair_iff] at hpushv
    obtain ⟨hqv, hret⟩ := hpushv
    have hsv : qv.Sound := by
      rw [hqv]
      exact ⟨hsound.size_le, h.begin_lt, mod_lt _ (by omega)⟩
    have hempty : qv.used = [] := by
      have hend : (qp.endPos + (args.flatten.length + 4)) % qp.size = qp.beginPos := by
        nth_rewrite 1 [hsound.end_eq]
        rw [← hret, mod_add_mod, hfull, Nat.zero_add, Nat.add_assoc, hsize, add_mod_right,
          mod_eq_of_lt h.begin_lt]
      refine hsv.empty_iff.mp ?_
      rw [hqv]
      exact hend.symm
    have hused := used_of_samePops hsv hsound hpops h.small h.used_eq
    have hlen := congrArg List.length (hused.trans h.used_eq.symm)
    rw [hempty, used_length, length_nil] at hlen
    omega

theorem safe_of_refused (h : q.Holds room ms) {args : List (List UInt8)}
    (hroom : ¬ q.length + args.flatten.length + 4 ≤ cqSize q) (hfits : q.length < cqSize q) (hagrees : Agrees q args) :
    PushvSafe q args := by
  have hsound := h.sound
  have hsize := hsound.cqSize_eq
  have hlt := hsound.length_lt
  have hpushv := agCQPushv_eq hsound args
  obtain ⟨qv, qp, ret, hv, hp, hpops, -⟩ := hagrees
  have hpush := agCQPush_refused hroom
  rw [hp, ok_pair_iff] at hpush
  obtain ⟨rfl, rfl⟩ := hpush
  rw [PushvSafe, if_neg (by exact hroom), if_neg (by exact hfits.ne)]
  refine ⟨hfits, ?_⟩
  rintro rfl
  have hmod : (qp.length + 4) % qp.size = qp.length + 4 := mod_eq_of_lt (by omega)
  have hext : qp.length + (([] : List (List UInt8)).flatten.length + 4) < qp.size := by
    simp only [flatten_nil, length_nil]
    omega
  rw [if_neg (fun hc => hc.1 rfl), hv, ok_pair_iff] at hpushv
  rw [hpushv.1] at hpops
  have hused := used_of_samePops (hsound.extend hext _).1 hsound hpops h.small h.used_eq
  rw [(hsound.extend hext _).2] at hused
  have hlen := congrArg List.length (hused.trans h.used_eq.symm)
  rw [length_append, ringSlice_length, ringSlice_length, used_length, flatten_nil, length_nil] at hlen
  omega

theorem safe_of_agrees (h : q.Holds room ms) {args : List (List UInt8)} (htotal : args.flatten.length < 2 ^ 32)
    (hagrees : Agrees q args) : PushvSafe q args := by
  have hfits : q.length ≤ cqSize q := by
    have hsize := h.sound.cqSize_eq
    have hroom := h.fits
    have heq := h.size_eq
    rw [← h.used_eq, used_length] at hroom
    rw [agCodequeueReserve] at heq
    omega
  by_cases hroom : q.length + args.flatten.length + 4 ≤ cqSize q
  · exact safe_of_room h htotal hroom hagrees
  · by_cases hfull : q.length = cqSize q
    · exact safe_of_full h hroom hfull hagrees
    · exact safe_of_refused h hroom (lt_of_le_of_ne hfits hfull) hagrees

/-! ## Every run -/

theorem agCQPush_sound (h : q.Sound) (bs : List UInt8) : ∃ q' ret, agCQPush q bs = .ok (q', ret) ∧ q'.Sound := by
  by_cases hroom : q.length + bs.length + 4 ≤ cqSize q
  · have hsize := h.cqSize_eq
    exact ⟨_, _, agCQPush_write h.end_lt hroom, (h.extend (show q.length + (bs.length + 4) < q.size by omega) _).1⟩
  · exact ⟨q, 0, agCQPush_refused hroom, h⟩

theorem agCQPushv_sound (h : q.Sound) (args : List (List UInt8)) :
    ∃ q' ret, agCQPushv q args = .ok (q', ret) ∧ q'.Sound := by
  have hsize := h.size_le
  have hpushv := agCQPushv_eq h args
  split at hpushv
  · exact ⟨_, _, hpushv, ⟨h.size_le, h.begin_lt, h.end_lt⟩⟩
  · exact ⟨_, _, hpushv, ⟨h.size_le, h.begin_lt, mod_lt _ (by omega)⟩⟩

theorem cqCall_sound {q' : CQ} (h : q.Sound) (call : CQCall) (hcall : cqCall q call = .ok q') : q'.Sound := by
  cases call with
  | push bs =>
    obtain ⟨q₁, ret, hpush, h₁⟩ := agCQPush_sound h bs
    simp only [cqCall, hpush, ok_bind, Except.ok.injEq] at hcall
    rwa [← hcall]
  | pushv args =>
    obtain ⟨q₁, ret, hpushv, h₁⟩ := agCQPushv_sound h args
    simp only [cqCall, hpushv, ok_bind, Except.ok.injEq] at hcall
    rwa [← hcall]
  | pop len =>
    obtain ⟨q₁, hpop, h₁, -⟩ := agCQPop_used h len
    simp only [cqCall, hpop, ok_bind, Except.ok.injEq] at hcall
    rwa [← hcall]

/-- A call that keeps a queue of messages one: the lengths fit in four bytes, and a vector push is
made where it does what a push does. -/
def CQCall.Regular (q : CQ) : CQCall → Prop
  | .push bs => bs.length < 2 ^ 32
  | .pushv args => args.flatten.length < 2 ^ 32 ∧ PushvSafe q args
  | .pop _ => True

instance (q : CQ) : (call : CQCall) → Decidable (call.Regular q)
  | .push bs => inferInstanceAs (Decidable (bs.length < 2 ^ 32))
  | .pushv args => inferInstanceAs (Decidable (args.flatten.length < 2 ^ 32 ∧ PushvSafe q args))
  | .pop _ => inferInstanceAs (Decidable True)

theorem CQ.Holds.of_used {q' : CQ} (h : q.Holds room ms) (hsize : q'.size = q.size) (hbegin : q'.beginPos = q.beginPos)
    (hend : q'.endPos = q.endPos) (hused : q'.used = q.used) : q'.Holds room ms := by
  have hlen : q'.length = (stored ms).length := by
    rw [← used_length, hused, h.used_eq]
  refine ⟨hsize.trans h.size_eq, ?_, ?_, h.fits, h.small, ?_, ?_⟩
  · rw [hbegin, hsize]
    exact h.begin_lt
  · rw [hend, hsize]
    exact h.end_lt
  · rw [hend, hbegin, hsize]
    exact h.end_eq
  · rw [← hlen, ← h.used_eq, ← hused]
    rfl

theorem push_holds {q' : CQ} (h : q.Holds room ms) {bs : List UInt8} (hbs : bs.length < 2 ^ 32)
    (hcall : cqCall q (.push bs) = .ok q') : ∃ ms', q'.Holds room ms' := by
  obtain ⟨q₁, hstep, h₁⟩ := cqStep_holds h (.push bs hbs)
  obtain ⟨⟨q₂, ret⟩, hpush, hout⟩ := bind_ok_iff.mp hstep
  simp only [ok_pair_iff] at hout
  simp only [cqCall, hpush, ok_bind, Except.ok.injEq] at hcall
  rw [← hcall, hout.1]
  exact ⟨_, h₁⟩

theorem cqCall_holds {q' : CQ} (h : ∃ ms, q.Holds room ms) (call : CQCall) (hregular : call.Regular q)
    (hcall : cqCall q call = .ok q') : ∃ ms, q'.Holds room ms := by
  obtain ⟨ms, h⟩ := h
  cases call with
  | push bs => exact push_holds h hregular hcall
  | pushv args =>
    obtain ⟨qv, qp, ret, hsame⟩ := sameBytes_of_safe h.sound hregular.2
    have hpush : cqCall q (.push args.flatten) = .ok qp := by rw [cqCall, hsame.push, ok_bind]
    obtain ⟨ms', h'⟩ := push_holds h hregular.1 hpush
    simp only [cqCall, hsame.pushv, ok_bind, Except.ok.injEq] at hcall
    rw [← hcall]
    exact ⟨ms', h'.of_used hsame.size_eq hsame.begin_eq hsame.end_eq hsame.used_eq⟩
  | pop len =>
    obtain ⟨q₁, hstep, h₁⟩ := cqStep_holds h (.pop len)
    obtain ⟨⟨q₂, result⟩, hpop, hout⟩ := bind_ok_iff.mp hstep
    simp only [ok_pair_iff] at hout
    simp only [cqCall, hpop, ok_bind, Except.ok.injEq] at hcall
    rw [← hcall, hout.1]
    exact ⟨_, h₁⟩

theorem agCQOpen_sound {ptr size : ℕ} {memory : Mem} (hopen : agCQOpen ptr size memory = some q) : q.Sound :=
  (agCQOpen_holds hopen).sound

theorem run_sound {calls : List CQCall} {q₀ : CQ} (h : q₀.Sound) (hrun : run cqCall q₀ calls = .ok q) : q.Sound :=
  run_preserves (G := fun _ _ => True) (fun _ call _ h _ hcall => cqCall_sound h call hcall) calls q₀ q h
    (along_of_forall calls q₀ fun _ _ => trivial) hrun

theorem run_holds {calls : List CQCall} {q₀ : CQ} (h : q₀.Holds room ms)
    (hregular : Along cqCall CQCall.Regular q₀ calls) (hrun : run cqCall q₀ calls = .ok q) :
    ∃ ms, q.Holds room ms :=
  run_preserves (fun _ call _ h hr hcall => cqCall_holds h call hr hcall) calls q₀ q ⟨ms, h⟩ hregular hrun

/-- In every state that any calls of push, vector push and pop reach from `agCQ_open`, a vector push
under the condition agrees with the push of the fragments put together. While the queue holds whole
messages only, the condition is exact. -/
theorem agCQPushv_agrees {ptr size : ℕ} {memory : Mem} {q₀ q : CQ} (hopen : agCQOpen ptr size memory = some q₀)
    (calls : List CQCall) (hrun : run cqCall q₀ calls = .ok q) (args : List (List UInt8)) :
    (PushvSafe q args → Agrees q args) ∧
    (Along cqCall CQCall.Regular q₀ calls → args.flatten.length < 2 ^ 32 →
      (Agrees q args ↔ PushvSafe q args)) := by
  have hsound : q.Sound := run_sound (agCQOpen_sound hopen) hrun
  refine ⟨agrees_of_safe hsound, fun hregular htotal => ⟨fun hagrees => ?_, agrees_of_safe hsound⟩⟩
  obtain ⟨ms, hms⟩ := run_holds (agCQOpen_holds hopen) hregular hrun
  exact safe_of_agrees hms htotal hagrees

theorem agCQPushv_agrees_start :
    ∃ q₀ q, agCQOpen 0 44 (fun _ => 0) = some q₀ ∧ run cqCall q₀ [.pushv [[4], [5, 6]], .pop 8] = .ok q ∧
      Agrees q₀ [[4], [5, 6]] ∧ Agrees q [[], []] := by
  have hopen : agCQOpen 0 44 (fun _ => 0) = some ⟨0, 0, 20, fun _ => 0⟩ := rfl
  have hstart := agCQPushv_agrees hopen [] rfl [[4], [5, 6]]
  have hlater := agCQPushv_agrees hopen [.pushv [[4], [5, 6]], .pop 8] rfl [[], []]
  exact ⟨_, _, hopen, rfl, hstart.1 (by decide), (hlater.2 (by decide) (by decide)).mpr (by decide)⟩

/-- The length of a second message is written over that of the first, which is then popped a byte
short. -/
theorem agCQPushv_overwrites :
    ∃ q₀ q, agCQOpen 0 44 (fun _ => 0) = some q₀ ∧ run cqCall q₀ [.push [1, 2, 3]] = .ok q ∧
      ¬ Agrees q [[4, 5]] := by
  have hopen : agCQOpen 0 44 (fun _ => 0) = some ⟨0, 0, 20, fun _ => 0⟩ := rfl
  refine ⟨_, _, hopen, rfl, fun hagrees => ?_⟩
  obtain ⟨ms, hms⟩ := @run_holds _ _ _ [.push [1, 2, 3]] _ (agCQOpen_holds hopen) (by decide) rfl
  exact absurd (safe_of_agrees hms (by decide) hagrees) (by decide)

end CServer.Framework
