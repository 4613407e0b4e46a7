import Mathlib.Tactic

/-! # Splitting a stream into frames

A prefix framer looks at the front of a stream and answers the length of the first frame, or `0`
when no complete frame is there. The answer depends on the bytes of the frame alone, so cutting a
stream into its frames can be done piece by piece.
-/
namespace CServer.Lib
open List

variable {α : Type}

structure PrefixFramer (α : Type) where
  frame : List α → ℕ
  frame_le : ∀ s, frame s ≤ s.length
  /-- The answer on a complete frame does not depend on what follows the frame. -/
  frame_prefix : ∀ s, 0 < frame s → ∀ t, frame (s.take (frame s) ++ t) = frame s

namespace PrefixFramer

variable (f : PrefixFramer α)

variable {s : List α}

theorem drop_lt (h : f.frame s ≠ 0) :
    (s.drop (f.frame s)).length < s.length := by
  have := f.frame_le s
  rw [length_drop]
  omega

def frames (f : PrefixFramer α) (s : List α) : List (List α) :=
  if _h : f.frame s = 0 then [] else s.take (f.frame s) :: f.frames (s.drop (f.frame s))
termination_by s.length
decreasing_by exact f.drop_lt _h

def rest (f : PrefixFramer α) (s : List α) : List α :=
  if _h : f.frame s = 0 then s else f.rest (s.drop (f.frame s))
termination_by s.length
decreasing_by exact f.drop_lt _h

theorem frames_zero (h : f.frame s = 0) : f.frames s = [] := by
  rw [frames, dif_pos h]

theorem rest_zero (h : f.frame s = 0) : f.rest s = s := by
  rw [rest, dif_pos h]

theorem frames_cons (h : f.frame s ≠ 0) :
    f.frames s = s.take (f.frame s) :: f.frames (s.drop (f.frame s)) := by
  rw [frames, dif_neg h]

theorem rest_cons (h : f.frame s ≠ 0) :
    f.rest s = f.rest (s.drop (f.frame s)) := by
  rw [rest, dif_neg h]

@[simp] theorem frame_nil : f.frame [] = 0 := by
  have := f.frame_le []
  rw [length_nil] at this
  omega

@[simp] theorem frames_nil : f.frames [] = [] := f.frames_zero f.frame_nil

@[simp] theorem rest_nil : f.rest [] = [] := f.rest_zero f.frame_nil

theorem frame_append (h : f.frame s ≠ 0) (t : List α) :
    f.frame (s ++ t) = f.frame s := by
  have hp := f.frame_prefix s (Nat.pos_of_ne_zero h) (s.drop (f.frame s) ++ t)
  rwa [← append_assoc, take_append_drop] at hp

theorem frame_rest (s : List α) : f.frame (f.rest s) = 0 := by
  induction hn : s.length using Nat.strongRecOn generalizing s with
  | _ n ih =>
    by_cases h : f.frame s = 0
    · rw [f.rest_zero h]
      exact h
    · rw [f.rest_cons h]
      exact ih _ (hn ▸ f.drop_lt h) _ rfl

theorem frames_flatten_rest (s : List α) : (f.frames s).flatten ++ f.rest s = s := by
  induction hn : s.length using Nat.strongRecOn generalizing s with
  | _ n ih =>
    by_cases h : f.frame s = 0
    · rw [f.frames_zero h, f.rest_zero h]
      rfl
    · rw [f.frames_cons h, f.rest_cons h, flatten_cons, append_assoc,
        ih _ (hn ▸ f.drop_lt h) _ rfl, take_append_drop]

theorem rest_length_le (s : List α) : (f.rest s).length ≤ s.length := by
  have h := congrArg List.length (f.frames_flatten_rest s)
  rw [length_append] at h
  omega

theorem drop_frames (s : List α) :
    s.drop (s.length - (f.rest s).length) = f.rest s := by
  have h := f.frames_flatten_rest s
  have hl := congrArg List.length h
  rw [length_append] at hl
  have e : s.length - (f.rest s).length = (f.frames s).flatten.length := by omega
  have hd : ((f.frames s).flatten ++ f.rest s).drop (f.frames s).flatten.length = f.rest s := drop_left
  rw [h] at hd
  rw [e]
  exact hd

theorem frames_append (s t : List α) :
    f.frames (s ++ t) = f.frames s ++ f.frames (f.rest s ++ t) := by
  induction hn : s.length using Nat.strongRecOn generalizing s with
  | _ n ih =>
    by_cases h : f.frame s = 0
    · rw [f.frames_zero h, f.rest_zero h]
      rfl
    · have hst := f.frame_append h t
      have hle := f.frame_le s
      rw [f.frames_cons (by rw [hst]; exact h), hst, take_append_of_le_length hle,
        drop_append_of_le_length hle, ih _ (hn ▸ f.drop_lt h) _ rfl, f.frames_cons h, f.rest_cons h,
        cons_append]

theorem rest_append (s t : List α) : f.rest (s ++ t) = f.rest (f.rest s ++ t) := by
  induction hn : s.length using Nat.strongRecOn generalizing s with
  | _ n ih =>
    by_cases h : f.frame s = 0
    · rw [f.rest_zero h]
    · have hst := f.frame_append h t
      have hle := f.frame_le s
      rw [f.rest_cons (by rw [hst]; exact h), hst, drop_append_of_le_length hle,
        ih _ (hn ▸ f.drop_lt h) _ rfl, f.rest_cons h]

end PrefixFramer
end CServer.Lib
