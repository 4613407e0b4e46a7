import CServer.Lib.Memory

/-! # `code_generate`: record types and the statements of their code

For every message of a `.proto` file `code_generate.cpp` emits a struct and the functions
`DATA_X_new`, `DATA_X_save` and so on that keep records of this type in a table of the database.
Here are the record types, the values of their fields, and the text of the two statements that
`DATA_X_save` and `DATA_X_delete` send.

Doubles are a type `R` of which only what C does with them is used: `printF` is `printf` of `%f`, `eqF`
is `==`. The database is a function `query` of its contents and the text of a statement.
-/
namespace CServer.CodeGenerate
open CServer.Lib List

/-! ## Record types -/

inductive FieldType
  | double
  | float
  | int64
  | uint64
  | int32
  | fixed64
  | fixed32
  | bool
  | string
  | message
  | uint32
  | enum
  | sfixed32
  | sfixed64
  | sint32
  | sint64
  deriving DecidableEq

structure Field where
  name : List UInt8
  id : ℕ
  type : FieldType
  required : Bool
  deriving DecidableEq

/-- A message whose fields `sort_fields` has sorted by id. `agCG_generate` refuses one with a field,
other than a message, whose id has no bit in `dirty`. -/
structure RecordType where
  table : List UInt8
  fields : List Field
  sorted : fields.Pairwise (fun f g => f.id < g.id)
  bits : ∀ f ∈ fields, f.type ≠ .message → f.id < 64

def bytes (s : String) : List UInt8 := s.toList.map (fun c => UInt8.ofNat c.toNat)

def RecordType.columns (T : RecordType) : List Field := T.fields.filter (fun f => f.type ≠ .message)

def RecordType.haveUuid (T : RecordType) : Bool := T.fields.any (fun f => f.name = bytes "uuid")

def RecordType.keys (T : RecordType) : List Field :=
  T.columns.filter (fun f => f.required && (!T.haveUuid || f.name = bytes "uuid"))

theorem RecordType.keys_required {T : RecordType} {f : Field} (hf : f ∈ T.keys) : f ∈ T.columns ∧ f.required = true := by
  simp only [RecordType.keys, mem_filter, Bool.and_eq_true] at hf
  exact ⟨hf.1, hf.2.1⟩

theorem RecordType.eq_of_id {T : RecordType} {f g : Field} (hf : f ∈ T.columns) (hg : g ∈ T.columns)
    (hid : f.id = g.id) : f = g := by
  have hinj := (pairwise_map.mpr (T.sorted.imp fun h => Nat.ne_of_lt h) : (T.fields.map Field.id).Nodup)
  exact inj_on_of_nodup_map hinj (mem_of_mem_filter hf) (mem_of_mem_filter hg) hid

/-! ## Values -/

inductive FieldValue (R : Type)
  | int (n : ℤ)
  | str (s : List UInt8)
  | real (r : R)
  deriving DecidableEq

/-- The columns of a row, or the members of a struct, by field id. -/
abbrev Row (R : Type) := ℕ → FieldValue R

abbrev Table (R : Type) := List (FieldValue R) → Option (Row R)

variable {R : Type}

def RecordType.keyOf (T : RecordType) (row : Row R) : List (FieldValue R) := T.keys.map (fun f => row f.id)

/-- What the emitted code calls: `printf` and `==` of a double, and the database. -/
structure Outside (R : Type) where
  printF : R → List UInt8
  eqF : R → R → Bool
  query : Table R → List UInt8 → Table R

variable (out : Outside R)

def Outside.same : FieldValue R → FieldValue R → Bool
  | .int n, .int m => decide (n = m)
  | .str s, .str t => decide (s = t)
  | .real r, .real q => out.eqF r q
  | _, _ => false

/-! ## The statements -/

def decimal (n : ℤ) : List UInt8 := bytes (toString n)

def Outside.printed (type : FieldType) : FieldValue R → List UInt8
  | .int n => if type = .fixed32 then bytes "from_unixtime_s(" ++ decimal (n % 2 ^ 64) ++ bytes ")" else decimal n
  | .str s => s
  | .real r => out.printF r

/-- One assignment of `update ... set`. Strings stand between quotes as they are. -/
def Outside.assignment (row : Row R) (f : Field) : List UInt8 :=
  bytes " `" ++ f.name ++ bytes "` = " ++
    if f.type = .string then bytes "'" ++ out.printed f.type (row f.id) ++ bytes "'" else out.printed f.type (row f.id)

/-- The texts the dirty fields are printed as, one for each call of `snprintf`; `n` counts the fields. -/
def Outside.assignments (out : Outside R) (row : Row R) (dirty : ℕ) : ℕ → List Field → List (List UInt8)
  | _, [] => []
  | n, f :: fs =>
    if dirty.testBit f.id then
      (if n = 0 then [] else [bytes ","]) ++ out.assignment row f :: out.assignments row dirty (n + 1) fs
    else out.assignments row dirty n fs

def Outside.conditions (quote : List UInt8) (row : Row R) (fs : List Field) : List UInt8 :=
  (bytes " and").intercalate (fs.map fun f => bytes " " ++ quote ++ f.name ++ quote ++ bytes " = " ++
    out.printed f.type (row f.id))

def RecordType.saveTexts (T : RecordType) (out : Outside R) (row : Row R) (dirty : ℕ) : List (List UInt8) :=
  (bytes "update `" ++ T.table ++ bytes "` set") ::
    (out.assignments row dirty 0 T.columns ++ [bytes " where" ++ out.conditions [] row T.keys])

def RecordType.deleteText (T : RecordType) (out : Outside R) (row : Row R) : List UInt8 :=
  bytes "delete from `" ++ T.table ++ bytes "` where " ++ out.conditions (bytes "`") row T.keys

def sqlSize : ℕ := 4096

structure SqlBuffer where
  text : List UInt8
  offset : ℕ

/-- `offset += snprintf(sql + offset, sizeof(sql) - offset, ...)`. What does not fit is cut off; once
`offset` is past the end, `sizeof(sql) - offset` has wrapped and the call writes outside `sql`. -/
def snprintf (b : SqlBuffer) (text : List UInt8) : Except Fault SqlBuffer :=
  if sqlSize < b.offset then .error .outOfBounds
  else .ok ⟨(b.text ++ text).take (sqlSize - 1), b.offset + text.length⟩

def RecordType.saveSql (T : RecordType) (out : Outside R) (row : Row R) (dirty : ℕ) : Except Fault (List UInt8) := do
  let b ← (T.saveTexts out row dirty).foldlM snprintf ⟨[], 0⟩
  .ok b.text

theorem snprintf_all (texts : List (List UInt8)) : ∀ done : List UInt8, (done ++ texts.flatten).length < sqlSize →
    texts.foldlM snprintf ⟨done, done.length⟩ = .ok ⟨done ++ texts.flatten, (done ++ texts.flatten).length⟩ := by
  induction texts with
  | nil =>
    intro done h
    simp only [foldlM_nil, flatten_nil, append_nil, pure_eq_ok]
  | cons text texts ih =>
    intro done h
    rw [flatten_cons, ← append_assoc] at h ⊢
    have hlen : (done ++ text).length < sqlSize := by
      rw [length_append] at h
      omega
    have hfit : ¬ sqlSize < done.length := by
      rw [length_append] at hlen
      omega
    have hcut : (done ++ text).take (sqlSize - 1) = done ++ text := take_of_length_le (by omega)
    rw [foldlM_cons]
    simp only [snprintf, hfit, if_false, ok_bind, hcut]
    rw [← length_append]
    exact ih (done ++ text) h

theorem RecordType.saveSql_ok {T : RecordType} {out : Outside R} {row : Row R} {dirty : ℕ}
    (h : (T.saveTexts out row dirty).flatten.length < sqlSize) :
    T.saveSql out row dirty = .ok (T.saveTexts out row dirty).flatten := by
  have hall := snprintf_all (T.saveTexts out row dirty) [] h
  rw [nil_append, length_nil] at hall
  simp only [RecordType.saveSql, hall, ok_bind]

/-- What becomes of a call of `database_update`: the connection is gone, the server refuses the
statement, or it carries it out. -/
inductive DbAnswer
  | gone
  | refused
  | done
  deriving DecidableEq

def databaseUpdate (t : Table R) (text : List UInt8) : DbAnswer → Except Fault (Table R × Bool)
  | .gone => .ok (t, false)
  | .refused => if sqlSize ≤ text.length then .error .outOfBounds else .ok (t, false)
  | .done => if sqlSize ≤ text.length then .error .outOfBounds else .ok (out.query t text, true)

theorem databaseUpdate_done {out : Outside R} {t : Table R} {text : List UInt8} (h : text.length < sqlSize) :
    databaseUpdate out t text .done = .ok (out.query t text, true) := by
  rw [databaseUpdate, if_neg (by omega)]

/-! ## What the statements mean -/

variable [DecidableEq R]

def RecordType.set (T : RecordType) (value : Row R) (dirty : ℕ) (row : Row R) : Row R :=
  fun i => if T.columns.any (fun f => f.id = i) && dirty.testBit i then value i else row i

def Table.update (t : Table R) (key : List (FieldValue R)) (change : Row R → Row R) : Table R :=
  Function.update t key ((t key).map change)

def Table.delete (t : Table R) (key : List (FieldValue R)) : Table R := Function.update t key none

end CServer.CodeGenerate
