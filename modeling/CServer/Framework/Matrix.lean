import CServer.Lib.Literal
import CServer.Lib.Memory
import CServer.Lib.Split

/-! # `framework/matrix.c`: a file of separated fields

`LoadMatrix` reads a file in blocks of at most 4096 bytes. A field that is not finished at the end of a block is moved
to the front of the buffer, and the next block is read in behind it.
-/
namespace CServer.Framework
open CServer.Lib List

/-! ## The code -/

/-- The bytes `fread` takes from a file, and whether it has met the end. -/
structure InFile where
  rest : List UInt8
  eof : Bool

def fread (file : InFile) (n : ℕ) : List UInt8 × InFile :=
  (file.rest.take n, ⟨file.rest.drop n, file.eof || decide (file.rest.length < n)⟩)

structure MatrixField where
  value : List UInt8
  deriving DecidableEq

/-- A growing array of pointers; `count` is the number of cells in use. -/
structure Cells (α : Type) where
  alloced : ℕ
  cell : List α
  deriving DecidableEq

section Cells

variable {α : Type}

def Cells.count (c : Cells α) : ℕ := c.cell.length

def Cells.new : Cells α := ⟨0, []⟩

def Cells.resize (c : Cells α) : Cells α :=
  if c.count < c.alloced then c
  else
    let newAlloc := if c.alloced = 0 then 32 else c.alloced * 2
    { c with alloced := newAlloc }

def Cells.push (c : Cells α) (x : α) : Except Fault (Cells α) := do
  let c := c.resize
  assert (decide (c.count < c.alloced))
  .ok { c with cell := c.cell ++ [x] }

def Cells.get (c : Cells α) (i : ℕ) : Option α := if c.count ≤ i then none else c.cell[i]?

end Cells

abbrev MatrixRow := Cells MatrixField

abbrev Matrix := Cells MatrixRow

/-- The buffer is the object that `msg` points into. -/
def matrixFieldNew (buff : Mem) (msg len : ℕ) : Except Fault MatrixField :=
  if msg + len ≤ 4096 then .ok ⟨slice buff msg len ++ [0]⟩ else .error .outOfBounds

def matrixRowPush (row : MatrixRow) (field : MatrixField) : Except Fault MatrixRow := row.push field

def matrixPush (matrix : Matrix) (row : MatrixRow) : Except Fault Matrix := matrix.push row

def matrixSize (matrix : Matrix) : ℕ := matrix.count

def matrixGet (matrix : Matrix) (row : ℕ) : Option MatrixRow := matrix.get row

def matrixRowSize (row : MatrixRow) : ℕ := row.count

def matrixRowGet (row : MatrixRow) (field : ℕ) : Option MatrixField := row.get field

def matrixFieldValue (field : MatrixField) : List UInt8 := field.value

/-- The variables of `LoadMatrix`. A pointer into `buff` is an offset. -/
structure LoadState where
  matrix : Matrix
  curRow : MatrixRow
  file : InFile
  buff : Mem
  len : ℕ
  ptr : ℕ
  strlen : ℕ

section Load

variable (sepField sepRow : UInt8)

def scanByte (s : LoadState) (i : ℕ) : Except Fault LoadState := do
  if 4096 ≤ i then .error .outOfBounds
  else if s.buff i = sepField ∨ s.buff i = sepRow then do
    let field ← matrixFieldNew s.buff s.ptr s.strlen
    let curRow ← matrixRowPush s.curRow field
    let s := { s with curRow := curRow, ptr := i + 1, strlen := 0 }
    if s.buff i = sepRow then
      if 0 < s.curRow.count then do
        let matrix ← matrixPush s.matrix s.curRow
        .ok { s with matrix := matrix, curRow := .new, ptr := i + 1, strlen := 0 }
      else .ok { s with ptr := i + 1, strlen := 0 }
    else .ok s
  else .ok { s with strlen := s.strlen + 1 }

def scanFrom : ℕ → ℕ → LoadState → Except Fault LoadState
  | 0, _, s => .ok s
  | n + 1, i, s => do
    let s ← scanByte sepField sepRow s i
    scanFrom n (i + 1) s

def readBlock (s : LoadState) : Except Fault LoadState := do
  if 4096 < s.len then .error .outOfBounds
  else do
    let (block, file) := fread s.file (4096 - s.len)
    let s := { s with file := file, buff := blit s.buff s.len block, len := s.len + block.length, ptr := 0, strlen := 0 }
    let s ← scanFrom sepField sepRow s.len 0 s
    if s.ptr ≠ s.len then
      if s.len < s.ptr ∨ 4096 < s.len then .error .outOfBounds
      else
        let len := s.len - s.ptr
        .ok { s with len := len, buff := shift s.buff 0 s.ptr len, ptr := 0 }
    else .ok { s with len := 0 }

def readFile : ℕ → LoadState → Except Fault LoadState
  | 0, _ => .error .diverges
  | fuel + 1, s =>
    if s.file.eof then .ok s
    else do
      let s ← readBlock sepField sepRow s
      readFile fuel s

def pushOpen (s : LoadState) : Except Fault MatrixRow :=
  if 0 < s.strlen then do
    let field ← matrixFieldNew s.buff s.ptr s.strlen
    matrixRowPush s.curRow field
  else .ok s.curRow

/-- `none` for a file that cannot be opened; there the result is the null pointer. -/
def loadMatrix (fuel : ℕ) (content : Option (List UInt8)) : Except Fault (Option Matrix) :=
  match content with
  | none => .ok none
  | some content => do
    let s ← readFile sepField sepRow fuel ⟨.new, .new, ⟨content, false⟩, fun _ => 0, 0, 0, 0⟩
    let curRow ← pushOpen s
    if 0 < curRow.count then do
      let matrix ← matrixPush s.matrix curRow
      .ok (some matrix)
    else .ok (some s.matrix)

end Load

/-! ## What the file says -/

def MatrixField.text (field : MatrixField) : List UInt8 := field.value.dropLast

def MatrixRow.texts (row : MatrixRow) : List (List UInt8) := row.cell.map MatrixField.text

def Matrix.texts (matrix : Matrix) : List (List (List UInt8)) := matrix.cell.map MatrixRow.texts

/-- The fields of the last row, which no separator ends: an empty last field is none, and no row is without fields. -/
def lastRow (sepField : UInt8) (line : List UInt8) : List (List (List UInt8)) :=
  let fields := line.splitOn sepField
  let fields := if fields.getLast? = some [] then fields.dropLast else fields
  if fields = [] then [] else [fields]

variable (sepField sepRow : UInt8)

/-- The whole content split at `sepRow`, and every row at `sepField`. -/
def splitMatrix (content : List UInt8) : List (List (List UInt8)) :=
  let lines := content.splitOn sepRow
  lines.dropLast.map (List.splitOn sepField) ++ lastRow sepField (lines.getLastD [])

def isSep (sepField sepRow b : UInt8) : Bool := b == sepField || b == sepRow

/-- Everything between two separators fits into the buffer with the separator behind it. -/
def FieldsFit (content : List UInt8) : Prop :=
  ∀ field ∈ content.splitOnP (isSep sepField sepRow), field.length < 4096

/-! ## The arrays -/

theorem Cells.push_ok {α : Type} {c : Cells α} (x : α) (hfits : c.count ≤ c.alloced) :
    ∃ c', c.push x = .ok c' ∧ c'.cell = c.cell ++ [x] ∧ c'.count ≤ c'.alloced := by
  have hroom : c.resize.count < c.resize.alloced ∧ c.resize.cell = c.cell := by
    unfold Cells.resize
    by_cases hlt : c.count < c.alloced
    · rw [if_pos hlt]
      exact ⟨hlt, rfl⟩
    · rw [if_neg hlt]
      refine ⟨?_, rfl⟩
      by_cases hzero : c.alloced = 0
      · simp only [Cells.count, hzero, if_true] at hfits ⊢
        omega
      · simp only [Cells.count, hzero, if_false] at hfits ⊢
        omega
  refine ⟨{ c.resize with cell := c.resize.cell ++ [x] }, ?_, ?_, ?_⟩
  · simp only [Cells.push, hroom.1, decide_true, assert_true, ok_bind]
  · rw [hroom.2]
  · have hlt := hroom.1
    simp only [Cells.count, length_append, length_singleton] at hlt ⊢
    omega

theorem Cells.get_eq {α : Type} (c : Cells α) (i : ℕ) : c.get i = c.cell[i]? := by
  unfold Cells.get
  by_cases hi : c.count ≤ i
  · rw [if_pos hi, List.getElem?_eq_none hi]
  · rw [if_neg hi]

theorem texts_get (matrix : Matrix) (x y : ℕ) :
    ((matrixGet matrix y).bind (matrixRowGet · x)).map (fun field => (matrixFieldValue field).dropLast) =
      matrix.texts[y]?.bind (·[x]?) := by
  simp only [matrixGet, Cells.get_eq, Matrix.texts, List.getElem?_map, Option.map_bind, Option.bind_map]
  congr 1
  funext row
  simp only [Function.comp_apply, matrixRowGet, Cells.get_eq, MatrixRow.texts, List.getElem?_map]
  rfl

theorem text_new (acc : List UInt8) : (⟨acc ++ [0]⟩ : MatrixField).text = acc := dropLast_concat

theorem matrixRowPush_ok {row : MatrixRow} (acc : List UInt8) (hfits : row.count ≤ row.alloced) :
    ∃ row' : MatrixRow, matrixRowPush row ⟨acc ++ [0]⟩ = .ok row' ∧ row'.texts = row.texts ++ [acc] ∧
      row'.count ≤ row'.alloced := by
  obtain ⟨row', hpush, hcell, hfits'⟩ := Cells.push_ok (⟨acc ++ [0]⟩ : MatrixField) hfits
  refine ⟨row', hpush, ?_, hfits'⟩
  rw [MatrixRow.texts, hcell, map_append, map_singleton, text_new, MatrixRow.texts]

theorem matrixPush_ok {matrix : Matrix} (row : MatrixRow) (hfits : matrix.count ≤ matrix.alloced) :
    ∃ matrix' : Matrix, matrixPush matrix row = .ok matrix' ∧ matrix'.texts = matrix.texts ++ [row.texts] ∧
      matrix'.count ≤ matrix'.alloced := by
  obtain ⟨matrix', hpush, hcell, hfits'⟩ := Cells.push_ok row hfits
  refine ⟨matrix', hpush, ?_, hfits'⟩
  rw [Matrix.texts, hcell, map_append, map_singleton, Matrix.texts]

theorem MatrixRow.texts_ne_nil {row : MatrixRow} : row.texts ≠ [] ↔ 0 < row.count := by
  rw [MatrixRow.texts, Cells.count, length_pos_iff, Ne, map_eq_nil_iff]

/-! ## The part of the file that has been scanned -/

section Parse

variable (sepField sepRow : UInt8)

/-- `acc` is the open field behind the rows and fields that are finished. -/
structure Parsed (c : List UInt8) (matrix : Matrix) (row : MatrixRow) (acc : List UInt8) : Prop where
  fields : ∃ done, c.splitOnP (isSep sepField sepRow) = done ++ [acc] ∧ ∀ field ∈ done, field.length < 4096
  lines : ∃ finished line, c.splitOnP (· == sepRow) = finished ++ [line] ∧
    matrix.texts = finished.map (List.splitOn sepField) ∧ line.splitOnP (· == sepField) = row.texts ++ [acc]
  matrix_fits : matrix.count ≤ matrix.alloced
  row_fits : row.count ≤ row.alloced

variable {sepField sepRow : UInt8} {c acc : List UInt8} {matrix : Matrix} {row : MatrixRow} {b : UInt8}

theorem parsed_nil : Parsed sepField sepRow [] .new .new [] :=
  ⟨⟨[], rfl, fun _ hf => absurd hf not_mem_nil⟩, ⟨[], [], rfl, rfl, rfl⟩, Nat.le_refl 0, Nat.le_refl 0⟩

theorem isSep_iff : isSep sepField sepRow b = true ↔ b = sepField ∨ b = sepRow := by
  simp [isSep]

theorem Parsed.byte (h : Parsed sepField sepRow c matrix row acc) (hb : ¬ (b = sepField ∨ b = sepRow)) :
    Parsed sepField sepRow (c ++ [b]) matrix row (acc ++ [b]) := by
  obtain ⟨hfield, hrow⟩ := not_or.mp hb
  obtain ⟨done, hdone, hshort⟩ := h.fields
  obtain ⟨finished, line, hlines, hmatrix, hline⟩ := h.lines
  have hsep : isSep sepField sepRow b = false := by rw [← Bool.not_eq_true, isSep_iff]; exact hb
  refine ⟨⟨done, splitOnP_snoc hdone hsep, hshort⟩, ?_, h.matrix_fits, h.row_fits⟩
  exact ⟨finished, line ++ [b], splitOnP_snoc hlines (by simp [hrow]), hmatrix, splitOnP_snoc hline (by simp [hfield])⟩

theorem Parsed.settle (h : Parsed sepField sepRow c matrix row acc) (hacc : acc.length < 4096)
    (hb : isSep sepField sepRow b = true) :
    ∃ done, (c ++ [b]).splitOnP (isSep sepField sepRow) = done ++ [[]] ∧ ∀ field ∈ done, field.length < 4096 := by
  obtain ⟨done, hdone, hshort⟩ := h.fields
  refine ⟨done ++ [acc], by rw [splitOnP_snoc_sep hb, hdone], fun field hf => ?_⟩
  obtain hf | hf := mem_append.mp hf
  · exact hshort field hf
  · rw [mem_singleton.mp hf]
    exact hacc

theorem Parsed.finish_field {row' : MatrixRow} (h : Parsed sepField sepRow c matrix row acc) (hacc : acc.length < 4096)
    (hpush : row'.texts = row.texts ++ [acc]) (hfits : row'.count ≤ row'.alloced) (hb : b = sepField) (hne : b ≠ sepRow) :
    Parsed sepField sepRow (c ++ [b]) matrix row' [] := by
  obtain ⟨finished, line, hlines, hmatrix, hline⟩ := h.lines
  refine ⟨h.settle hacc (isSep_iff.mpr (.inl hb)), ?_, h.matrix_fits, hfits⟩
  refine ⟨finished, line ++ [b], splitOnP_snoc hlines (by simp [hne]), hmatrix, ?_⟩
  rw [splitOnP_snoc_sep (by simp [hb]), hline, hpush]

theorem Parsed.finish_row {row' : MatrixRow} {matrix' : Matrix} (h : Parsed sepField sepRow c matrix row acc)
    (hacc : acc.length < 4096) (hpush : row'.texts = row.texts ++ [acc])
    (hmatrix' : matrix'.texts = matrix.texts ++ [row'.texts]) (hfits : matrix'.count ≤ matrix'.alloced) (hb : b = sepRow) :
    Parsed sepField sepRow (c ++ [b]) matrix' .new [] := by
  obtain ⟨finished, line, hlines, hmatrix, hline⟩ := h.lines
  refine ⟨h.settle hacc (isSep_iff.mpr (.inr hb)), ?_, hfits, Nat.le_refl 0⟩
  refine ⟨finished ++ [line], [], by rw [splitOnP_snoc_sep (by simp [hb]), hlines], ?_, rfl⟩
  rw [hmatrix', hmatrix, hpush, map_append, map_singleton, splitOn_eq_splitOnP, hline]

theorem Parsed.short_open {r : List UInt8} (h : Parsed sepField sepRow c matrix row acc)
    (hshort : FieldsFit sepField sepRow (c ++ r)) : acc.length < 4096 := by
  obtain ⟨done, hdone, -⟩ := h.fields
  obtain ⟨more, hmem⟩ := exists_extended hdone r
  have hlt := hshort _ hmem
  rw [length_append] at hlt
  omega

theorem Parsed.short (h : Parsed sepField sepRow c matrix row acc) (hacc : acc.length < 4096) :
    FieldsFit sepField sepRow c := by
  obtain ⟨done, hdone, hshort⟩ := h.fields
  intro field hf
  rw [hdone] at hf
  obtain hf | hf := mem_append.mp hf
  · exact hshort field hf
  · rw [mem_singleton.mp hf]
    exact hacc

end Parse

/-! ## Scanning a block -/

section Scan

variable {sepField sepRow : UInt8}

theorem matrixFieldNew_ok {buff : Mem} {msg len : ℕ} (h : msg + len ≤ 4096) :
    matrixFieldNew buff msg len = .ok ⟨slice buff msg len ++ [0]⟩ := if_pos h

/-- The first `i` bytes of the buffer have been scanned; `pre` is what came before them. -/
structure Scanning (sepField sepRow : UInt8) (pre : List UInt8) (s : LoadState) (i : ℕ) : Prop where
  settled : Parsed sepField sepRow (pre ++ slice s.buff 0 s.ptr) s.matrix s.curRow []
  opened : Parsed sepField sepRow (pre ++ slice s.buff 0 i) s.matrix s.curRow (slice s.buff s.ptr s.strlen)
  place : s.ptr + s.strlen = i

theorem slice_succ (m : Mem) (p n : ℕ) : slice m p (n + 1) = slice m p n ++ [m (p + n)] := by
  rw [slice_add]
  rfl

theorem scanByte_ok {pre : List UInt8} {s : LoadState} {i : ℕ} (h : Scanning sepField sepRow pre s i) (hi : i < 4096) :
    ∃ s', scanByte sepField sepRow s i = .ok s' ∧ Scanning sepField sepRow pre s' (i + 1) ∧
      s'.buff = s.buff ∧ s'.file = s.file ∧ s'.len = s.len := by
  have hplace := h.place
  have hnext : pre ++ slice s.buff 0 (i + 1) = pre ++ slice s.buff 0 i ++ [s.buff i] := by
    rw [slice_succ, Nat.zero_add, append_assoc]
  have hacc : (slice s.buff s.ptr s.strlen).length < 4096 := by
    rw [slice_length]
    omega
  rw [scanByte, if_neg (Nat.not_le.mpr hi)]
  by_cases hsep : s.buff i = sepField ∨ s.buff i = sepRow
  · obtain ⟨row', hrow, htexts, hfits⟩ := matrixRowPush_ok (slice s.buff s.ptr s.strlen) h.opened.row_fits
    rw [if_pos hsep, matrixFieldNew_ok (by omega)]
    simp only [ok_bind, hrow]
    by_cases hend : s.buff i = sepRow
    · have hcount : 0 < row'.count := by
        rw [← MatrixRow.texts_ne_nil, htexts]
        exact append_ne_nil_of_right_ne_nil _ (cons_ne_nil _ _)
      obtain ⟨matrix', hmatrix, htexts', hfits'⟩ := matrixPush_ok row' h.opened.matrix_fits
      rw [if_pos hend, if_pos hcount]
      simp only [hmatrix, ok_bind]
      have hdone := h.opened.finish_row hacc htexts htexts' hfits' hend
      rw [← hnext] at hdone
      exact ⟨_, rfl, ⟨hdone, hdone, rfl⟩, rfl, rfl, rfl⟩
    · rw [if_neg hend]
      have hdone := h.opened.finish_field hacc htexts hfits (hsep.resolve_right hend) hend
      rw [← hnext] at hdone
      exact ⟨_, rfl, ⟨hdone, hdone, rfl⟩, rfl, rfl, rfl⟩
  · rw [if_neg hsep]
    have hbyte := h.opened.byte hsep
    rw [← hnext] at hbyte
    have hopen : slice s.buff s.ptr (s.strlen + 1) = slice s.buff s.ptr s.strlen ++ [s.buff i] := by
      rw [slice_succ, hplace]
    rw [← hopen] at hbyte
    exact ⟨_, rfl, ⟨h.settled, hbyte, congrArg (· + 1) hplace⟩, rfl, rfl, rfl⟩

theorem scanFrom_ok {pre : List UInt8} (n : ℕ) : ∀ {s : LoadState} {i : ℕ}, Scanning sepField sepRow pre s i →
    i + n ≤ 4096 → ∃ s', scanFrom sepField sepRow n i s = .ok s' ∧ Scanning sepField sepRow pre s' (i + n) ∧
      s'.buff = s.buff ∧ s'.file = s.file ∧ s'.len = s.len := by
  induction n with
  | zero => exact fun h _ => ⟨_, rfl, h, rfl, rfl, rfl⟩
  | succ n ih =>
    intro s i h hi
    obtain ⟨s₁, hbyte, h₁, hbuff₁, hfile₁, hlen₁⟩ := scanByte_ok h (by omega)
    obtain ⟨s', hscan, h', hbuff, hfile, hlen⟩ := ih h₁ (by omega)
    refine ⟨s', by rw [scanFrom, hbyte, ok_bind, hscan], ?_, hbuff.trans hbuff₁, hfile.trans hfile₁, hlen.trans hlen₁⟩
    rwa [Nat.add_assoc, Nat.add_comm 1 n] at h'

/-! ## Reading blocks -/

/-- Between two reads: the buffer holds the open field, behind `pre` and before what has not been read. -/
structure Loaded (sepField sepRow : UInt8) (content : List UInt8) (s : LoadState) : Prop where
  content : ∃ pre, content = pre ++ slice s.buff 0 s.len ++ s.file.rest ∧
    Parsed sepField sepRow pre s.matrix s.curRow [] ∧
    Parsed sepField sepRow (pre ++ slice s.buff 0 s.len) s.matrix s.curRow (slice s.buff s.ptr s.strlen)
  len_le : s.len ≤ 4096
  strlen : s.strlen = s.len
  place : s.ptr + s.strlen ≤ 4096
  eof : s.file.eof = true → s.file.rest = [] ∧ s.len < 4096

theorem settle_ok {content pre : List UInt8} {s : LoadState} (h : Scanning sepField sepRow pre s s.len)
    (hcontent : content = pre ++ slice s.buff 0 s.len ++ s.file.rest) (hlen : s.len ≤ 4096)
    (heof : s.file.eof = true → s.file.rest = [] ∧ s.len < 4096) :
    ∃ s', (if s.ptr ≠ s.len then
        if s.len < s.ptr ∨ 4096 < s.len then .error .outOfBounds
        else .ok { s with len := s.len - s.ptr, buff := shift s.buff 0 s.ptr (s.len - s.ptr), ptr := 0 }
      else .ok { s with len := 0 } : Except Fault LoadState) = .ok s' ∧ Loaded sepField sepRow content s' ∧
      s'.file = s.file := by
  have hplace := h.place
  have hsplit : slice s.buff 0 s.len = slice s.buff 0 s.ptr ++ slice s.buff s.ptr (s.len - s.ptr) := by
    rw [slice_split s.buff 0 s.ptr s.len (by omega), Nat.zero_add]
  by_cases hopen : s.ptr ≠ s.len
  · have hstrlen : s.len - s.ptr = s.strlen := by omega
    have hmoved := slice_shift s.buff 0 s.ptr s.strlen
    have hopened := h.opened
    rw [hstrlen] at hsplit
    rw [hsplit, ← append_assoc] at hcontent hopened
    rw [if_pos hopen, if_neg (by omega), hstrlen]
    have hend : s.file.eof = true → s.file.rest = [] ∧ s.strlen < 4096 := fun he => ⟨(heof he).1, by have := (heof he).2; omega⟩
    refine ⟨_, rfl, ⟨⟨pre ++ slice s.buff 0 s.ptr, ?_, h.settled, ?_⟩, ?_, rfl, ?_, hend⟩, rfl⟩
    · simp only [hmoved, hcontent]
    · simp only [hmoved]
      exact hopened
    all_goals
      simp only
      omega
  · have hptr : s.ptr = s.len := not_not.mp hopen
    have hstrlen : s.strlen = 0 := by omega
    have hsettled := h.settled
    rw [hptr] at hsettled
    rw [if_neg hopen]
    refine ⟨_, rfl, ⟨⟨pre ++ slice s.buff 0 s.len, ?_, hsettled, ?_⟩, Nat.zero_le _, hstrlen, ?_, fun he => ⟨(heof he).1, Nat.zero_lt_succ _⟩⟩, rfl⟩
    · simp only [slice_zero, append_nil, hcontent]
    · simp only [slice_zero, append_nil, hstrlen]
      exact hsettled
    · simp only
      omega

variable {content : List UInt8}

theorem readBlock_ok {s : LoadState} (h : Loaded sepField sepRow content s) (hmore : s.file.eof = false) :
    ∃ s', readBlock sepField sepRow s = .ok s' ∧ Loaded sepField sepRow content s' ∧
      (s'.file.eof = false → s'.file.rest.length + (4096 - s.len) = s.file.rest.length) := by
  obtain ⟨pre, hcontent, hsettled, -⟩ := h.content
  have hlen_le := h.len_le
  obtain ⟨block, hblock⟩ : ∃ block, block = s.file.rest.take (4096 - s.len) := ⟨_, rfl⟩
  obtain ⟨rest, hrest⟩ : ∃ rest, rest = s.file.rest.drop (4096 - s.len) := ⟨_, rfl⟩
  obtain ⟨buff, hbuff⟩ : ∃ buff, buff = blit s.buff s.len block := ⟨_, rfl⟩
  obtain ⟨eof, heof⟩ : ∃ eof, eof = decide (s.file.rest.length < 4096 - s.len) := ⟨_, rfl⟩
  have hjoin : s.file.rest = block ++ rest := by rw [hblock, hrest, take_append_drop]
  have hlength : block.length = min (4096 - s.len) s.file.rest.length := by rw [hblock, length_take]
  have hslice : slice buff 0 (s.len + block.length) = slice s.buff 0 s.len ++ block := by
    rw [hbuff, slice_add, slice_blit_outside _ _ _ _ _ (.inl (Nat.zero_add _).le), Nat.zero_add, slice_blit]
  have hwhole : content = pre ++ slice buff 0 (s.len + block.length) ++ rest := by
    rw [hslice, hcontent, hjoin]
    simp only [append_assoc]
  have hstart : Scanning sepField sepRow pre
      ⟨s.matrix, s.curRow, ⟨rest, eof⟩, buff, s.len + block.length, 0, 0⟩ 0 := by
    have hnil : Parsed sepField sepRow (pre ++ []) s.matrix s.curRow [] := by rwa [append_nil]
    exact ⟨hnil, hnil, rfl⟩
  obtain ⟨s₁, hscan, hs₁, hbuff₁, hfile₁, hlen₁⟩ := scanFrom_ok (s.len + block.length) hstart (by omega)
  simp only at hbuff₁ hfile₁ hlen₁
  rw [Nat.zero_add, ← hlen₁] at hs₁
  have hend : s₁.file.eof = true → s₁.file.rest = [] ∧ s₁.len < 4096 := by
    rw [hfile₁, hlen₁, heof, hrest, decide_eq_true_iff]
    intro hshort
    exact ⟨drop_eq_nil_of_le hshort.le, by omega⟩
  have hcontent₁ : content = pre ++ slice s₁.buff 0 s₁.len ++ s₁.file.rest := by
    rw [hbuff₁, hlen₁, hfile₁]
    exact hwhole
  obtain ⟨s', hsettle, hloaded, hfile⟩ := settle_ok hs₁ hcontent₁ (by omega) hend
  refine ⟨s', ?_, hloaded, ?_⟩
  · rw [readBlock, if_neg (by omega)]
    simp only [fread, hmore, Bool.false_or, ← hblock, ← hrest, ← hbuff, ← heof, hscan, ok_bind]
    exact hsettle
  · rw [hfile, hfile₁, heof, hrest, decide_eq_false_iff_not, length_drop]
    intro hfull
    omega

theorem loaded_start (content : List UInt8) :
    Loaded sepField sepRow content ⟨.new, .new, ⟨content, false⟩, fun _ => 0, 0, 0, 0⟩ :=
  ⟨⟨[], rfl, parsed_nil, parsed_nil⟩, Nat.zero_le _, rfl, Nat.zero_le _, fun h => nomatch h⟩

theorem Loaded.room {s : LoadState} (h : Loaded sepField sepRow content s)
    (hfit : FieldsFit sepField sepRow content) : s.len < 4096 := by
  obtain ⟨pre, hcontent, -, hopened⟩ := h.content
  rw [hcontent] at hfit
  have hlt := hopened.short_open hfit
  rwa [slice_length, h.strlen] at hlt

theorem Loaded.ended {s : LoadState} (h : Loaded sepField sepRow content s)
    (heof : s.file.eof = true) : Parsed sepField sepRow content s.matrix s.curRow (slice s.buff s.ptr s.strlen) := by
  obtain ⟨pre, hcontent, -, hopened⟩ := h.content
  rw [(h.eof heof).1, append_nil] at hcontent
  rwa [← hcontent] at hopened

theorem readFile_ok (hfit : FieldsFit sepField sepRow content) (n : ℕ) :
    ∀ {s : LoadState}, Loaded sepField sepRow content s → (s.file.eof = false → s.file.rest.length + 1 ≤ n) →
      ∃ s', (∀ fuel, n < fuel → readFile sepField sepRow fuel s = .ok s') ∧ Loaded sepField sepRow content s' ∧
        s'.file.eof = true := by
  have hend : ∀ {n : ℕ} {s : LoadState}, s.file.eof = true → ∀ fuel, n < fuel → readFile sepField sepRow fuel s = .ok s := by
    intro n s heof fuel hfuel
    obtain ⟨f, rfl⟩ := exists_succ_of_lt hfuel
    rw [readFile, if_pos heof]
  induction n with
  | zero =>
    intro s h hn
    have heof : s.file.eof = true := by
      by_contra hmore
      exact absurd (hn (Bool.not_eq_true _ ▸ hmore)) (by omega)
    exact ⟨s, hend heof, h, heof⟩
  | succ n ih =>
    intro s h hn
    cases heof : s.file.eof with
    | true => exact ⟨s, hend heof, h, heof⟩
    | false =>
      have hroom := h.room hfit
      obtain ⟨s₁, hblock, h₁, hread⟩ := readBlock_ok h heof
      obtain ⟨s', hrun, h', heof'⟩ := ih h₁ fun hmore => by
        have hlen := hread hmore
        have hle := hn heof
        omega
      refine ⟨s', fun fuel hfuel => ?_, h', heof'⟩
      obtain ⟨f, rfl⟩ := exists_succ_of_lt hfuel
      rw [readFile, heof, hblock, ok_bind]
      exact hrun f (by omega)

theorem readFile_diverges (hlong : ¬ FieldsFit sepField sepRow content) (fuel : ℕ) :
    ∀ {s : LoadState}, Loaded sepField sepRow content s → readFile sepField sepRow fuel s = .error .diverges := by
  induction fuel with
  | zero => exact fun _ => rfl
  | succ fuel ih =>
    intro s h
    have hmore : s.file.eof = false := by
      by_contra heof
      have heof := Bool.not_eq_false _ ▸ heof
      refine hlong ((h.ended heof).short ?_)
      rw [slice_length, h.strlen]
      exact (h.eof heof).2
    obtain ⟨s₁, hblock, h₁, -⟩ := readBlock_ok h hmore
    rw [readFile, hmore, hblock, ok_bind]
    exact ih h₁

end Scan

/-! ## The whole file -/

section Whole

variable {sepField sepRow : UInt8} {content : List UInt8}

theorem splitMatrix_eq {matrix : Matrix} {row : MatrixRow} {acc : List UInt8}
    (h : Parsed sepField sepRow content matrix row acc) : splitMatrix sepField sepRow content = matrix.texts ++
      (let fields := if acc = [] then row.texts else row.texts ++ [acc]; if fields = [] then [] else [fields]) := by
  obtain ⟨finished, line, hlines, hmatrix, hline⟩ := h.lines
  have hfields : line.splitOn sepField = row.texts ++ [acc] := by rw [splitOn_eq_splitOnP, hline]
  rw [splitMatrix, splitOn_eq_splitOnP, hlines]
  simp only [dropLast_concat, getLastD_concat, lastRow, hfields, hmatrix, List.getLast?_concat, Option.some_inj]

theorem pushOpen_ok {s : LoadState} (hfits : s.curRow.count ≤ s.curRow.alloced) (hplace : s.ptr + s.strlen ≤ 4096) :
    ∃ row' : MatrixRow, pushOpen s = .ok row' ∧
      row'.texts = (if slice s.buff s.ptr s.strlen = [] then MatrixRow.texts s.curRow
        else MatrixRow.texts s.curRow ++ [slice s.buff s.ptr s.strlen]) ∧ row'.count ≤ row'.alloced := by
  have hopen : 0 < s.strlen ↔ slice s.buff s.ptr s.strlen ≠ [] := by
    rw [← length_pos_iff, slice_length]
  by_cases hpos : 0 < s.strlen
  · obtain ⟨row', hpush, htexts, hfits'⟩ := matrixRowPush_ok (slice s.buff s.ptr s.strlen) hfits
    rw [pushOpen, if_pos hpos, if_neg (hopen.mp hpos), matrixFieldNew_ok hplace]
    exact ⟨row', hpush, htexts, hfits'⟩
  · rw [pushOpen, if_neg hpos, if_pos (not_not.mp fun hne => hpos (hopen.mpr hne))]
    exact ⟨s.curRow, rfl, rfl, hfits⟩

theorem loadMatrix_short (h : FieldsFit sepField sepRow content) : ∃ matrix : Matrix, (∀ fuel, content.length + 1 < fuel →
    loadMatrix sepField sepRow fuel (some content) = .ok (some matrix)) ∧
      matrix.texts = splitMatrix sepField sepRow content := by
  obtain ⟨s, hrun, hloaded, heof⟩ := readFile_ok h (content.length + 1) (loaded_start content) fun _ => le_refl _
  have hparsed := hloaded.ended heof
  obtain ⟨row', hrow, htexts, hfits⟩ := pushOpen_ok hparsed.row_fits hloaded.place
  by_cases hcount : 0 < row'.count
  · obtain ⟨matrix', hmatrix, htexts', -⟩ := matrixPush_ok row' hparsed.matrix_fits
    refine ⟨matrix', fun fuel hfuel => ?_, ?_⟩
    · simp only [loadMatrix, hrun fuel hfuel, ok_bind, hrow, hcount, if_true, hmatrix]
    · rw [splitMatrix_eq hparsed, ← htexts, htexts']
      simp only [MatrixRow.texts_ne_nil.mpr hcount, if_false]
  · refine ⟨s.matrix, fun fuel hfuel => ?_, ?_⟩
    · simp only [loadMatrix, hrun fuel hfuel, ok_bind, hrow, hcount, if_false]
    · rw [splitMatrix_eq hparsed, ← htexts]
      have hnil : row'.texts = [] := not_not.mp fun hne => hcount (MatrixRow.texts_ne_nil.mp hne)
      simp only [hnil, if_true, append_nil]

theorem loadMatrix_long (h : ¬ FieldsFit sepField sepRow content) (fuel : ℕ) :
    loadMatrix sepField sepRow fuel (some content) = .error .diverges := by
  rw [loadMatrix, readFile_diverges h fuel (loaded_start content)]
  rfl

end Whole

/-- `LoadMatrix` ends, with the rows and fields of the whole file, exactly if every field is shorter than the buffer. -/
theorem loadMatrix_iff (content : List UInt8) :
    (∃ (matrix : Matrix) (n : ℕ), (∀ fuel, n < fuel → loadMatrix sepField sepRow fuel (some content) = .ok (some matrix)) ∧
      matrix.texts = splitMatrix sepField sepRow content) ↔ FieldsFit sepField sepRow content := by
  constructor
  · rintro ⟨matrix, n, hload, -⟩
    by_contra hlong
    have hok := hload (n + 1) (Nat.lt_succ_self n)
    rw [loadMatrix_long hlong] at hok
    exact nomatch hok
  · intro hfit
    obtain ⟨matrix, hload, htexts⟩ := loadMatrix_short hfit
    exact ⟨matrix, _, hload, htexts⟩

/-- Rows are finished by `sepRow`; without it the last row ends with the file. -/
example : splitMatrix 44 10 [97, 44, 98, 10, 10, 99, 44] = [[[97], [98]], [[]], [[99]]] := by decide

/-- A file of 4096 bytes without a separator is read forever. -/
theorem loadMatrix_full : ¬ ∃ fuel, loadMatrix 44 10 fuel (some (List.replicate 4096 97)) ≠ .error .diverges := by
  rintro ⟨fuel, hends⟩
  refine hends (loadMatrix_long (fun hfit => ?_) fuel)
  have hfree : ∀ x ∈ List.replicate 4096 (97 : UInt8), isSep 44 10 x = false := by
    intro x hx
    rw [eq_of_mem_replicate hx]
    rfl
  have hlt := hfit (List.replicate 4096 97) (by rw [splitOnP_eq_singleton hfree]; exact mem_singleton_self _)
  rw [length_replicate] at hlt
  exact Nat.lt_irrefl 4096 hlt

/-! ## Files that are written row by row -/

def matrixFile (rows : List (List (List UInt8))) : List UInt8 :=
  rows.flatMap fun row => [sepField].intercalate row ++ [sepRow]

section Written
variable {sepField sepRow : UInt8} {rows : List (List (List UInt8))}

theorem splitOnP_intercalate {p : UInt8 → Bool} (hsep : p sepField) {row : List (List UInt8)} (hne : row ≠ [])
    (hfree : ∀ f ∈ row, ∀ b ∈ f, p b = false) : ([sepField].intercalate row).splitOnP p = row := by
  induction row with
  | nil => exact absurd rfl hne
  | cons f row ih =>
    rw [forall_mem_cons] at hfree
    cases row with
    | nil => simpa using splitOnP_eq_singleton hfree.1
    | cons g row =>
      rw [intercalate_cons_cons, append_assoc, singleton_append, splitOnP_append_cons _ _ hsep,
        splitOnP_eq_singleton hfree.1, ih (cons_ne_nil g row) hfree.2]
      rfl

theorem matrixFile_lines (h : ∀ row ∈ rows, sepRow ∉ [sepField].intercalate row) :
    (matrixFile sepField sepRow rows).splitOn sepRow = rows.map [sepField].intercalate ++ [[]] := by
  induction rows with
  | nil => rfl
  | cons row rows ih =>
    rw [forall_mem_cons] at h
    rw [matrixFile, flatMap_cons, append_assoc, singleton_append, splitOn_append_cons_self,
      splitOn_eq_singleton h.1, ← matrixFile, ih h.2]
    rfl

theorem matrixFile_fields {p : UInt8 → Bool} (hp : p sepField ∧ p sepRow) (hne : ∀ row ∈ rows, row ≠ [])
    (hfree : ∀ row ∈ rows, ∀ f ∈ row, ∀ b ∈ f, p b = false) :
    (matrixFile sepField sepRow rows).splitOnP p = rows.flatten ++ [[]] := by
  induction rows with
  | nil => rfl
  | cons row rows ih =>
    rw [forall_mem_cons] at hne hfree
    rw [matrixFile, flatMap_cons, append_assoc, singleton_append, splitOnP_append_cons _ _ hp.2,
      splitOnP_intercalate hp.1 hne.1 hfree.1, ← matrixFile, ih hne.2 hfree.2, flatten_cons, append_assoc]

/-- Every field of every row is read back at its place. -/
theorem matrixFile_restored (hsep : sepField ≠ sepRow) (hne : ∀ row ∈ rows, row ≠ [])
    (hfree : ∀ row ∈ rows, ∀ f ∈ row, f.length < 4096 ∧ sepField ∉ f ∧ sepRow ∉ f) :
    ∃ matrix : Matrix, (∀ fuel, (matrixFile sepField sepRow rows).length + 1 < fuel →
      loadMatrix sepField sepRow fuel (some (matrixFile sepField sepRow rows)) = .ok (some matrix)) ∧
      matrixSize matrix = rows.length ∧ (∀ y, (matrixGet matrix y).map matrixRowSize = rows[y]?.map List.length) ∧
      ∀ x y, ((matrixGet matrix y).bind (matrixRowGet · x)).map (fun field => (matrixFieldValue field).dropLast) =
        rows[y]?.bind (·[x]?) := by
  have hfields : (matrixFile sepField sepRow rows).splitOnP (isSep sepField sepRow) = rows.flatten ++ [[]] := by
    apply matrixFile_fields ⟨by simp [isSep], by simp [isSep]⟩ hne
    intro row hrow f hf b hb
    obtain ⟨-, h1, h2⟩ := hfree row hrow f hf
    simp [isSep, ne_of_mem_of_not_mem hb h1, ne_of_mem_of_not_mem hb h2]
  have hfit : FieldsFit sepField sepRow (matrixFile sepField sepRow rows) := by
    intro field hfield
    rw [hfields, mem_append, mem_flatten] at hfield
    obtain ⟨row, hrow, hf⟩ | hfield := hfield
    · exact (hfree row hrow field hf).1
    · rw [mem_singleton.mp hfield]
      decide
  have hlines : (matrixFile sepField sepRow rows).splitOn sepRow = rows.map [sepField].intercalate ++ [[]] := by
    apply matrixFile_lines
    intro row hrow
    exact not_mem_intercalate (fun h => hsep (mem_singleton.mp h).symm) fun f hf => (hfree row hrow f hf).2.2
  have hrows : splitMatrix sepField sepRow (matrixFile sepField sepRow rows) = rows := by
    have hrow : rows.map (List.splitOn sepField ∘ [sepField].intercalate) = rows.map id :=
      map_congr_left fun row hrow => splitOn_intercalate _ (fun f hf => (hfree row hrow f hf).2.1) (hne row hrow)
    rw [splitMatrix, hlines, dropLast_concat, getLastD_concat, map_map, hrow, map_id]
    exact append_nil rows
  obtain ⟨matrix, hload, htexts⟩ := loadMatrix_short hfit
  rw [hrows] at htexts
  refine ⟨matrix, hload, ?_, fun y => ?_, fun x y => ?_⟩
  · rw [← htexts, Matrix.texts, length_map]
    rfl
  · rw [← htexts, matrixGet, Cells.get_eq, Matrix.texts, List.getElem?_map, Option.map_map]
    congr 1
    funext row
    exact (length_map MatrixField.text).symm
  · rw [texts_get, htexts]

/-- A row of two fields, the second of which is empty, and a row of one. -/
theorem matrixFile_restored_two : ∃ matrix : Matrix,
    (∀ fuel, 6 < fuel → loadMatrix 44 10 fuel (some [97, 44, 10, 98, 10]) = .ok (some matrix)) ∧ matrixSize matrix = 2 ∧
      (matrixGet matrix 0).map matrixRowSize = some 2 := by
  obtain ⟨matrix, hload, hsize, hrow, -⟩ :=
    @matrixFile_restored 44 10 [[[97], []], [[98]]] (by decide) (by simp) (by simp)
  exact ⟨matrix, hload, hsize, hrow 0⟩

end Written

end CServer.Framework
