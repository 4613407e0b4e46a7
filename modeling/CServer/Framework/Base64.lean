import CServer.Lib.Transducer
import Mathlib.Tactic.IntervalCases

/-! # Base64 text

`framework/cencode.c`, `cdecode.c` and `base64.c`. A `switch` into the loop goes on where the last block ended, so a
state and one character make a step. `char` is signed; bytes are kept unsigned here. In `step_a` the byte under
construction lies in memory that has not been written; it is written before it is read.
-/
namespace CServer.Framework
open CServer.Lib List

/-! ## The code -/

def charsPerLine : ℕ := 72

def encoding : List UInt8 := "ABCDEFGHIJKLMNOPQRSTUVWXYZabcdefghijklmnopqrstuvwxyz0123456789+/".toUTF8.toList

/-- Values of 128 and more, which are negative, do not occur. -/
def base64EncodeValue (value : UInt8) : UInt8 := if 63 < value then 61 else encoding.getD value.toNat 0

def decoding : List ℤ :=
  [62, -1, -1, -1, 63, 52, 53, 54, 55, 56, 57, 58, 59, 60, 61, -1, -1, -1, -2, -1, -1, -1, 0, 1, 2, 3, 4, 5, 6, 7, 8, 9,
    10, 11, 12, 13, 14, 15, 16, 17, 18, 19, 20, 21, 22, 23, 24, 25, -1, -1, -1, -1, -1, -1, 26, 27, 28, 29, 30, 31, 32,
    33, 34, 35, 36, 37, 38, 39, 40, 41, 42, 43, 44, 45, 46, 47, 48, 49, 50, 51]

/-- What is negative after the subtraction is 128 or more here. -/
def base64DecodeValue (value : UInt8) : ℤ := decoding.getD (value - 43).toNat (-1)

inductive EncodeStep
  | step_A
  | step_B
  | step_C

structure EncodeState where
  step : EncodeStep
  result : UInt8
  stepcount : ℕ

def base64InitEncodestate : EncodeState := ⟨.step_A, 0, 0⟩

variable (s : EncodeState)

def encodeStep (fragment : UInt8) : List UInt8 × EncodeState :=
  match s.step with
  | .step_A => ([base64EncodeValue ((fragment &&& 0xfc) >>> 2)], ⟨.step_B, (fragment &&& 0x03) <<< 4, s.stepcount⟩)
  | .step_B =>
    ([base64EncodeValue (s.result ||| (fragment &&& 0xf0) >>> 4)], ⟨.step_C, (fragment &&& 0x0f) <<< 2, s.stepcount⟩)
  | .step_C =>
    let chars := [base64EncodeValue (s.result ||| (fragment &&& 0xc0) >>> 6), base64EncodeValue (fragment &&& 0x3f)]
    if s.stepcount + 1 = charsPerLine / 4 then (chars ++ [10], ⟨.step_A, fragment &&& 0x3f, 0⟩)
    else (chars, ⟨.step_A, fragment &&& 0x3f, s.stepcount + 1⟩)

def base64EncodeBlock : EncodeState → List UInt8 → List UInt8 × EncodeState := translate encodeStep

def base64EncodeBlockend : List UInt8 :=
  match s.step with
  | .step_B => [base64EncodeValue s.result, 61, 61, 10]
  | .step_C => [base64EncodeValue s.result, 61, 10]
  | .step_A => [10]

/-- The step, with `plainchar`. -/
inductive DecodeState
  | step_a
  | step_b (plainchar : UInt8)
  | step_c (plainchar : UInt8)
  | step_d (plainchar : UInt8)

def decodeFragment (fragment : UInt8) : DecodeState → List UInt8 × DecodeState
  | .step_a => ([], .step_b ((fragment &&& 0x3f) <<< 2))
  | .step_b plainchar => ([plainchar ||| (fragment &&& 0x30) >>> 4], .step_c ((fragment &&& 0x0f) <<< 4))
  | .step_c plainchar => ([plainchar ||| (fragment &&& 0x3c) >>> 2], .step_d ((fragment &&& 0x03) <<< 6))
  | .step_d plainchar => ([plainchar ||| (fragment &&& 0x3f)], .step_a)

/-- The loops skip what has a negative value. -/
def decodeStep (s : DecodeState) (code : UInt8) : List UInt8 × DecodeState :=
  if base64DecodeValue code < 0 then ([], s) else decodeFragment (UInt8.ofNat (base64DecodeValue code).toNat) s

def base64DecodeBlock : DecodeState → List UInt8 → List UInt8 × DecodeState := translate decodeStep

def base64Encode (input : List UInt8) : List UInt8 :=
  let (code, s) := base64EncodeBlock base64InitEncodestate input
  code ++ base64EncodeBlockend s ++ [0]

/-- The input ends at its first null character. -/
def base64Decode (input : List UInt8) : List UInt8 := (base64DecodeBlock .step_a (input.takeWhile (· ≠ 0))).1

/-! ## Bits -/

theorem eq_of_bits {a b : UInt8} (h : ∀ i (_ : i < 8), a.toBitVec[i] = b.toBitVec[i]) : a = b :=
  UInt8.eq_of_toBitVec_eq (BitVec.eq_of_getElem_eq h)

/-- The four values of three bytes. -/
def sextet1 (a : UInt8) : UInt8 := (a &&& 0xfc) >>> 2
def sextet2 (a b : UInt8) : UInt8 := (a &&& 0x03) <<< 4 ||| (b &&& 0xf0) >>> 4
def sextet3 (b c : UInt8) : UInt8 := (b &&& 0x0f) <<< 2 ||| (c &&& 0xc0) >>> 6
def sextet4 (c : UInt8) : UInt8 := c &&& 0x3f

section Bits
variable (a b c : UInt8)

theorem sextet1_six : sextet1 a &&& 0x3f = sextet1 a := by
  apply eq_of_bits
  intro i hi
  interval_cases i <;> simp [sextet1]

theorem sextet2_six : sextet2 a b &&& 0x3f = sextet2 a b := by
  apply eq_of_bits
  intro i hi
  interval_cases i <;> simp [sextet2]

theorem sextet3_six : sextet3 b c &&& 0x3f = sextet3 b c := by
  apply eq_of_bits
  intro i hi
  interval_cases i <;> simp [sextet3]

theorem sextet4_six : sextet4 c &&& 0x3f = sextet4 c := by
  apply eq_of_bits
  intro i hi
  interval_cases i <;> simp [sextet4]

theorem sextet1_high : sextet1 a <<< 2 = a &&& 0xfc := by
  apply eq_of_bits
  intro i hi
  interval_cases i <;> simp [sextet1]

theorem sextet2_high : (sextet2 a b &&& 0x0f) <<< 4 = b &&& 0xf0 := by
  apply eq_of_bits
  intro i hi
  interval_cases i <;> simp [sextet2]

theorem sextet3_high : (sextet3 b c &&& 0x03) <<< 6 = c &&& 0xc0 := by
  apply eq_of_bits
  intro i hi
  interval_cases i <;> simp [sextet3]

theorem byte1 : (a &&& (0xfc : UInt8)) ||| ((sextet2 a b &&& 0x30) >>> 4 : UInt8) = a := by
  apply eq_of_bits
  intro i hi
  interval_cases i <;> simp [sextet2]

theorem byte2 : (b &&& (0xf0 : UInt8)) ||| ((sextet3 b c &&& 0x3c) >>> 2 : UInt8) = b := by
  apply eq_of_bits
  intro i hi
  interval_cases i <;> simp [sextet3]

theorem byte3 : (c &&& 0xc0) ||| sextet4 c = c := by
  apply eq_of_bits
  intro i hi
  interval_cases i <;> simp [sextet4]

end Bits

/-! ## A character and its value -/

theorem decode_encode_value : ∀ v < 64, base64DecodeValue (base64EncodeValue (UInt8.ofNat v)) = v := by decide +kernel

theorem encoding_ne_zero : ∀ v < 64, encoding.getD v 0 ≠ 0 := by decide +kernel

theorem base64EncodeValue_ne_zero (v : UInt8) : base64EncodeValue v ≠ 0 := by
  unfold base64EncodeValue
  split_ifs with h
  · decide
  · apply encoding_ne_zero
    rw [UInt8.lt_iff_toNat_lt] at h
    exact Nat.lt_succ_of_le (not_lt.mp h)

/-- Six bits go through. -/
theorem decodeStep_value (s : DecodeState) {v : UInt8} (hv : v &&& 0x3f = v) :
    decodeStep s (base64EncodeValue v) = decodeFragment v s := by
  have hlt : v.toNat < 64 := by
    rw [← hv, UInt8.toNat_and]
    exact lt_of_le_of_lt Nat.and_le_right (by decide)
  have hvalue := decode_encode_value v.toNat hlt
  rw [UInt8.ofNat_toNat] at hvalue
  rw [decodeStep, hvalue, if_neg (by omega), Int.toNat_natCast, UInt8.ofNat_toNat]

/-! ## Decoding what was encoded -/

/-- What the decoder has read, and the byte it has yet to complete. -/
def DecodedSoFar (t : DecodeState) (pending : List UInt8) : Prop :=
  match s.step with
  | .step_A => t = .step_a ∧ pending = []
  | .step_B => ∃ a, pending = [a] ∧ s.result = (a &&& 0x03) <<< 4 ∧ t = .step_b (a &&& 0xfc)
  | .step_C => ∃ b, pending = [b] ∧ s.result = (b &&& 0x0f) <<< 2 ∧ t = .step_c (b &&& 0xf0)

theorem encodeStep_decoded (t : DecodeState) (p : List UInt8) (x : UInt8) (h : DecodedSoFar s t p) :
    ∃ p', DecodedSoFar (encodeStep s x).2 (translate decodeStep t (encodeStep s x).1).2 p' ∧
      p ++ [x] = (translate decodeStep t (encodeStep s x).1).1 ++ p' := by
  obtain ⟨step, result, stepcount⟩ := s
  cases step with
  | step_A =>
    obtain ⟨rfl, rfl⟩ := h
    have hdecode := decodeStep_value .step_a (sextet1_six x)
    refine ⟨[x], ⟨x, rfl, rfl, ?_⟩, ?_⟩
    · simp only [encodeStep, translate_cons, translate_nil]
      rw [← sextet1, hdecode, decodeFragment, sextet1_six, sextet1_high]
    · simp only [encodeStep, translate_cons, translate_nil]
      rw [← sextet1, hdecode]
      rfl
  | step_B =>
    obtain ⟨a, rfl, rfl, rfl⟩ := h
    have hdecode := decodeStep_value (.step_b (a &&& 0xfc)) (sextet2_six a x)
    refine ⟨[x], ⟨x, rfl, rfl, ?_⟩, ?_⟩
    · simp only [encodeStep, translate_cons, translate_nil]
      rw [← sextet2, hdecode, decodeFragment, sextet2_high]
    · simp only [encodeStep, translate_cons, translate_nil]
      rw [← sextet2, hdecode, decodeFragment, byte1]
      rfl
  | step_C =>
    obtain ⟨b, rfl, rfl, rfl⟩ := h
    have hthird := decodeStep_value (.step_c (b &&& 0xf0)) (sextet3_six b x)
    have hfourth := decodeStep_value (.step_d (x &&& 0xc0)) (sextet4_six x)
    have hbreak : decodeStep .step_a 10 = ([], .step_a) := rfl
    have hread : translate decodeStep (.step_c (b &&& 0xf0)) [base64EncodeValue (sextet3 b x), base64EncodeValue (sextet4 x)] =
        ([b, x], .step_a) := by
      simp only [translate_cons, translate_nil, hthird, decodeFragment, byte2, sextet3_high, hfourth, sextet4_six, byte3]
      rfl
    refine ⟨[], ?_⟩
    unfold encodeStep
    simp only
    rw [← sextet3, ← sextet4]
    split_ifs
    · rw [translate_append, hread]
      exact ⟨⟨rfl, rfl⟩, rfl⟩
    · rw [hread]
      exact ⟨⟨rfl, rfl⟩, rfl⟩

theorem blockend_decoded {s : EncodeState} {t : DecodeState} {p : List UInt8} (h : DecodedSoFar s t p) :
    (translate decodeStep t (base64EncodeBlockend s)).1 = p := by
  obtain ⟨step, result, stepcount⟩ := s
  cases step with
  | step_A =>
    obtain ⟨rfl, rfl⟩ := h
    rfl
  | step_B =>
    obtain ⟨a, rfl, rfl, rfl⟩ := h
    have hzero : (a &&& 0x03) <<< 4 = sextet2 a 0 := by simp [sextet2]
    simp only [base64EncodeBlockend, translate_cons]
    rw [hzero, decodeStep_value _ (sextet2_six a 0), decodeFragment, byte1]
    rfl
  | step_C =>
    obtain ⟨b, rfl, rfl, rfl⟩ := h
    have hzero : (b &&& 0x0f) <<< 2 = sextet3 b 0 := by simp [sextet3]
    simp only [base64EncodeBlockend, translate_cons]
    rw [hzero, decodeStep_value _ (sextet3_six b 0), decodeFragment, byte2]
    rfl

variable (chunks : List (List UInt8))

/-- The text of blocks that are encoded one after the other. -/
def base64Text : List UInt8 :=
  let (codes, s) := translate base64EncodeBlock base64InitEncodestate chunks
  codes ++ base64EncodeBlockend s

theorem encodeStep_ne_zero (x : UInt8) : ∀ c ∈ (encodeStep s x).1, c ≠ 0 := by
  unfold encodeStep
  split
  · simp [base64EncodeValue_ne_zero]
  · simp [base64EncodeValue_ne_zero]
  · dsimp only
    split_ifs <;> simp [base64EncodeValue_ne_zero]

theorem blockend_ne_zero : ∀ c ∈ base64EncodeBlockend s, c ≠ 0 := by
  unfold base64EncodeBlockend
  split <;> simp [base64EncodeValue_ne_zero]

theorem base64Text_ne_zero : ∀ c ∈ base64Text chunks, c ≠ 0 := by
  intro c hc
  rcases mem_append.mp hc with hc | hc
  · rw [base64EncodeBlock, translate_blocks] at hc
    exact translate_forall _ encodeStep_ne_zero _ c hc
  · exact blockend_ne_zero _ c hc

theorem base64Text_decoded :
    (translate decodeStep .step_a (base64Text chunks)).1 = chunks.flatten := by
  have hinit : DecodedSoFar base64InitEncodestate .step_a [] := ⟨rfl, rfl⟩
  obtain ⟨p, hp, hout⟩ := translate_inverse encodeStep_decoded chunks.flatten _ _ _ hinit
  have hend := blockend_decoded hp
  rw [base64Text, base64EncodeBlock, translate_blocks]
  simp only [translate_append]
  rw [hend, ← hout]
  rfl

/-- Wherever the bytes are cut for the encoder and their text for the decoder, the same bytes come out. -/
theorem base64_blocks_restored (chunks blocks : List (List UInt8)) (h : blocks.flatten = base64Text chunks) :
    (translate base64DecodeBlock .step_a blocks).1 = chunks.flatten := by
  rw [base64DecodeBlock, translate_blocks, h]
  exact base64Text_decoded chunks

/-- Three bytes in two pieces, their text in three. -/
theorem base64_blocks_restored_man : (translate base64DecodeBlock .step_a [[84], [], [87, 70, 117, 10]]).1 = [77, 97, 110] :=
  base64_blocks_restored [[77], [97, 110]] [[84], [], [87, 70, 117, 10]] (by decide +kernel)

/-! ## The size of the text -/

/-- The state after `n` bytes. -/
structure EncodeState.After (s : EncodeState) (n : ℕ) : Prop where
  stepcount : s.stepcount = n / 3 % 18
  step : s.step = if n % 3 = 0 then .step_A else if n % 3 = 1 then .step_B else .step_C

theorem encodeStep_after {s : EncodeState} {n : ℕ} (h : s.After n) (x : UInt8) : (encodeStep s x).2.After (n + 1) ∧
    (encodeStep s x).1.length + (n + n / 3 + n / 54) = n + 1 + (n + 1) / 3 + (n + 1) / 54 := by
  obtain ⟨step, result, stepcount⟩ := s
  obtain ⟨hcount, hstep⟩ := h
  simp only at hcount hstep
  by_cases h0 : n % 3 = 0
  · rw [if_pos h0] at hstep
    subst hstep
    refine ⟨⟨?_, ?_⟩, ?_⟩
    · simp only [encodeStep]
      omega
    · rw [if_neg (by omega), if_pos (by omega)]
      rfl
    · simp only [encodeStep, length_singleton]
      omega
  by_cases h1 : n % 3 = 1
  · rw [if_neg h0, if_pos h1] at hstep
    subst hstep
    refine ⟨⟨?_, ?_⟩, ?_⟩
    · simp only [encodeStep]
      omega
    · rw [if_neg (by omega), if_neg (by omega)]
      rfl
    · simp only [encodeStep, length_singleton]
      omega
  · rw [if_neg h0, if_neg h1] at hstep
    subst hstep
    have hper : charsPerLine / 4 = 18 := rfl
    unfold encodeStep
    simp only
    by_cases hline : stepcount + 1 = charsPerLine / 4
    · rw [if_pos hline]
      refine ⟨⟨?_, ?_⟩, ?_⟩
      · simp only
        omega
      · rw [if_pos (by omega)]
      · simp only [length_append, length_cons, length_nil]
        omega
    · rw [if_neg hline]
      refine ⟨⟨?_, ?_⟩, ?_⟩
      · simp only
        omega
      · rw [if_pos (by omega)]
      · simp only [length_cons, length_nil]
        omega

theorem encodeBlock_after (xs : List UInt8) : ∀ {s : EncodeState} {n : ℕ}, s.After n →
    (base64EncodeBlock s xs).2.After (n + xs.length) ∧ (base64EncodeBlock s xs).1.length + (n + n / 3 + n / 54) =
      n + xs.length + (n + xs.length) / 3 + (n + xs.length) / 54 := by
  induction xs with
  | nil =>
    intro s n h
    exact ⟨h, Nat.zero_add _⟩
  | cons x xs ih =>
    intro s n h
    obtain ⟨hstep, hlength⟩ := encodeStep_after h x
    obtain ⟨hrest, hlengths⟩ := ih hstep
    rw [base64EncodeBlock] at hrest hlengths ⊢
    have e : n + 1 + xs.length = n + (x :: xs).length := by
      rw [length_cons]
      omega
    rw [e] at hrest hlengths
    rw [translate_cons, length_append]
    exact ⟨hrest, by omega⟩

/-- The buffer `checkAndAddAIFightData` encodes into. -/
def fightDataSize : ℕ := 64 * 1024

/-- The text ends with the first null character, decodes to the bytes and is as long as this; longer messages than that
are written behind the buffer. -/
theorem base64_text (input beyond : List UInt8) : base64Decode (base64Encode input ++ beyond) = input ∧
    (base64Encode input).length = 4 * ((input.length + 2) / 3) + input.length / 54 + 2 ∧
    ((base64Encode input).length ≤ fightDataSize ↔ input.length ≤ 48477) := by
  have hsize : (base64Encode input).length = 4 * ((input.length + 2) / 3) + input.length / 54 + 2 := by
    obtain ⟨hafter, hlength⟩ := encodeBlock_after input (s := base64InitEncodestate) (n := 0) ⟨rfl, rfl⟩
    rw [Nat.zero_add] at hafter hlength
    have hend : (base64EncodeBlockend (base64EncodeBlock base64InitEncodestate input).2).length =
        if input.length % 3 = 0 then 1 else if input.length % 3 = 1 then 4 else 3 := by
      unfold base64EncodeBlockend
      rw [hafter.step]
      split_ifs <;> rfl
    simp only [base64Encode, length_append, hend, length_singleton]
    split_ifs <;> omega
  refine ⟨?_, hsize, ?_⟩
  · have htext : base64Encode input = base64Text [input] ++ [0] := by
      simp [base64Encode, base64Text]
    have hzero : ∀ c ∈ base64Text [input], decide (c ≠ 0) = true := fun c hc => decide_eq_true (base64Text_ne_zero _ c hc)
    rw [base64Decode, htext, append_assoc, takeWhile_append_of_pos hzero]
    simpa [base64DecodeBlock] using base64Text_decoded [input]
  · rw [hsize, fightDataSize]
    omega

end CServer.Framework
