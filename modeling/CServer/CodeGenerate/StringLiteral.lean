import CServer.Lib.Literal
import CServer.CodeGenerate.WriteBehind

/-! # `code_generate`: strings in the statements

`DATA_X_new` escapes a string before it puts it between quotes, `DATA_X_save` puts it there as it is, and
a key that is a string stands in the `where` clause of `DATA_X_save` without quotes. What is meant by the
statements are their tokens `newTokens` and `saveTokens`, in which a string is one literal; the texts are
read by `scan` with the quote, the escape character and the escape sequences of MySQL.
-/
namespace CServer.CodeGenerate
open CServer.Lib List Function

def quoteChar : UInt8 := 39

def escapeChar : UInt8 := 92

def unescapeChar (c : UInt8) : List UInt8 :=
  if c = 48 then [0]
  else if c = 98 then [8]
  else if c = 110 then [10]
  else if c = 114 then [13]
  else if c = 116 then [9]
  else if c = 90 then [26]
  else if c = 37 ∨ c = 95 then [escapeChar, c]
  else [c]

def scanSql (sql : List UInt8) : Option (List (Token UInt8)) := scan quoteChar escapeChar unescapeChar .text sql

abbrev StandsForItself (v : List UInt8) : Prop := Verbatim quoteChar escapeChar unescapeChar v

variable {R : Type}

/-! ## `DATA_X_new` -/

variable (T : RecordType)

def RecordType.inserted : List Field := T.columns.filter (fun f => f.name ≠ bytes "uuid")

variable (out : Outside R)

/-- The statement of `DATA_X_new`; `escape` is `database_escape_string`. -/
def RecordType.newText (escape : List UInt8 → List UInt8) (row : Row R) :
    List UInt8 :=
  bytes "insert into `" ++ T.table ++ bytes "` (" ++
    (bytes ", ").intercalate (T.inserted.map fun f => bytes "`" ++ f.name ++ bytes "`") ++ bytes ") values (" ++
    (bytes ", ").intercalate (T.inserted.map fun f =>
      if f.type = .string then bytes "'" ++ escape (out.printed f.type (row f.id)) ++ bytes "'"
      else out.printed f.type (row f.id)) ++ bytes ")"

def Store.setUuid (s : Store R) (r : ℕ) (id : ℤ) : Store R :=
  match T.columns.find? (fun f => f.name = bytes "uuid") with
  | none => s
  | some f => { s with value := update s.value r (update (s.value r) f.id (.int id)) }

/-- `lastId` is what `database_last_id` answers. -/
def Store.dataNew (escape : List UInt8 → List UInt8) (s : Store R) (r : ℕ) (lastId : ℤ)
    (answer : DbAnswer) : Except Fault (Store R × Bool) := do
  s.access r
  let (table, ok) ← databaseUpdate out s.table (T.newText out escape (s.value r)) answer
  let s := { s with table := table }
  if ok then .ok (((s.clean r).setFlag r .none).setUuid T r lastId, true) else .ok (s, false)

/-! ## What the statements say -/

variable (row : Row R)

def Outside.valueTokens (f : Field) : List (Token UInt8) :=
  if f.type = .string then [.lit (out.printed f.type (row f.id))] else plain (out.printed f.type (row f.id))

def RecordType.newTokens : List (Token UInt8) :=
  plain (bytes "insert into `" ++ T.table ++ bytes "` (" ++
    (bytes ", ").intercalate (T.inserted.map fun f => bytes "`" ++ f.name ++ bytes "`") ++ bytes ") values (") ++
    (plain (bytes ", ")).intercalate (T.inserted.map (out.valueTokens row)) ++ plain (bytes ")")

def Outside.assignmentTokens (f : Field) : List (Token UInt8) :=
  plain (bytes " `" ++ f.name ++ bytes "` = ") ++ out.valueTokens row f

def Outside.conditionTokens (f : Field) : List (Token UInt8) :=
  plain (bytes " " ++ f.name ++ bytes " = ") ++ out.valueTokens row f

def RecordType.dirtyColumns (dirty : ℕ) : List Field := T.columns.filter (fun f => dirty.testBit f.id)

def RecordType.saveTokens (dirty : ℕ) : List (Token UInt8) :=
  plain (bytes "update `" ++ T.table ++ bytes "` set") ++
    (plain (bytes ",")).intercalate ((T.dirtyColumns dirty).map (out.assignmentTokens row)) ++
    plain (bytes " where") ++ (plain (bytes " and")).intercalate (T.keys.map (out.conditionTokens row))

/-- The statement that `DATA_X_save` sends is read as it is meant: every dirty string is a literal of its
value, and nothing else is changed. -/
def RecordType.SaveReadsBack (dirty : ℕ) : Prop :=
  ∃ sql, T.saveSql out row dirty = .ok sql ∧ scanSql sql = some (T.saveTokens out row dirty)

/-- No key is a string, every dirty string stands for itself, and the statement fits into `sql`. -/
structure RecordType.Quotable (T : RecordType) (out : Outside R) (row : Row R) (dirty : ℕ) : Prop where
  keys : ∀ f ∈ T.keys, f.type ≠ .string
  strings : ∀ f ∈ T.dirtyColumns dirty, f.type = .string → StandsForItself (out.printed f.type (row f.id))
  fits : (T.saveTexts out row dirty).flatten.length < sqlSize

structure RecordType.Named (T : RecordType) : Prop where
  table : quoteChar ∉ T.table
  names : ∀ f ∈ T.columns, quoteChar ∉ f.name

/-- The members of type `string` hold strings, and no others do. -/
def RecordType.Typed : Prop :=
  ∀ f ∈ T.columns, f.type = .string ↔ ∃ v, row f.id = .str v

structure RecordType.Unquoted (T : RecordType) (out : Outside R) (row : Row R) : Prop extends T.Named where
  values : ∀ f ∈ T.columns, f.type ≠ .string → quoteChar ∉ out.printed f.type (row f.id)

/-! ## Texts and tokens -/

section Statements
variable {T : RecordType} {out : Outside R} {row : Row R}

theorem unescapeChar_one (c : UInt8) : unescapeChar c = [escapeChar, c] ∨ (unescapeChar c).length = 1 := by
  unfold unescapeChar
  repeat' split
  · exact .inr rfl
  · exact .inr rfl
  · exact .inr rfl
  · exact .inr rfl
  · exact .inr rfl
  · exact .inr rfl
  · exact .inl rfl
  · exact .inr rfl

theorem valueTokens_render (write : List UInt8 → List UInt8) (f : Field) :
    (out.valueTokens row f).flatMap (Token.render quoteChar write) =
      if f.type = .string then bytes "'" ++ write (out.printed f.type (row f.id)) ++ bytes "'"
      else out.printed f.type (row f.id) := by
  unfold Outside.valueTokens
  split
  · rw [flatMap_singleton]
    rfl
  · exact render_plain _

theorem valueTokens_separate (h : T.Unquoted out row) {f : Field} (hf : f ∈ T.columns) {ts : List (Token UInt8)}
    (hts : Opens quoteChar ts) : Separate quoteChar (out.valueTokens row f ++ ts) := by
  unfold Outside.valueTokens
  split
  · exact ⟨hts.2, hts.1⟩
  · next hs => exact hts.1.plain (h.values f hf hs)

theorem assignmentTokens_render (f : Field) :
    (out.assignmentTokens row f).flatMap (Token.render quoteChar id) = out.assignment row f := by
  rw [Outside.assignmentTokens, flatMap_append, render_plain, valueTokens_render, Outside.assignment]
  rfl

theorem assignments_later (fs : List Field) (dirty : ℕ) : ∀ n, (out.assignments row dirty (n + 1) fs).flatten =
    ((fs.filter fun f => dirty.testBit f.id).map (out.assignment row)).flatMap (bytes "," ++ ·) := by
  induction fs with
  | nil => exact fun _ => rfl
  | cons f fs ih =>
    intro n
    rw [Outside.assignments]
    by_cases hd : dirty.testBit f.id = true
    · rw [if_pos hd, if_neg (Nat.succ_ne_zero n), filter_cons, if_pos hd, map_cons, flatMap_cons,
        singleton_append, flatten_cons, flatten_cons, ih, append_assoc]
    · rw [if_neg hd, filter_cons, if_neg hd, ih]

theorem assignments_flatten (fs : List Field) (dirty : ℕ) : (out.assignments row dirty 0 fs).flatten =
    (bytes ",").intercalate ((fs.filter fun f => dirty.testBit f.id).map (out.assignment row)) := by
  induction fs with
  | nil => rfl
  | cons f fs ih =>
    rw [Outside.assignments]
    by_cases hd : dirty.testBit f.id = true
    · rw [if_pos hd, if_pos rfl, filter_cons, if_pos hd, map_cons, intercalate_cons, nil_append,
        flatten_cons, assignments_later]
    · rw [if_neg hd, filter_cons, if_neg hd, ih]

theorem saveTexts_flatten (T : RecordType) (dirty : ℕ) : (T.saveTexts out row dirty).flatten =
    bytes "update `" ++ T.table ++ bytes "` set" ++
      (bytes ",").intercalate ((T.dirtyColumns dirty).map (out.assignment row)) ++ bytes " where" ++
      out.conditions [] row T.keys := by
  rw [RecordType.saveTexts, flatten_cons, flatten_append, assignments_flatten, flatten_singleton]
  simp only [append_assoc]
  rfl

theorem condition_cost (f : Field) : (bytes " " ++ [] ++ f.name ++ [] ++ bytes " = " ++
    out.printed f.type (row f.id)).length + (if f.type = .string then 2 else 0) = cost (out.conditionTokens row f) := by
  rw [Outside.conditionTokens, cost_append, cost_plain, Outside.valueTokens]
  simp only [append_nil, length_append]
  split
  · rw [cost, map_singleton, sum_singleton, Token.cost]
    omega
  · rw [cost_plain]
    omega

theorem saveTexts_cost (T : RecordType) (dirty : ℕ) : (T.saveTexts out row dirty).flatten.length +
    (T.keys.map fun f => if f.type = .string then 2 else 0).sum = cost (T.saveTokens out row dirty) := by
  have hlen : ∀ f, (out.assignment row f).length + 0 = cost (out.assignmentTokens row f) := by
    intro f
    rw [← assignmentTokens_render, render_length, add_zero]
  have hcond := cost_intercalate (bytes " and") (fun f => @condition_cost R out row f) T.keys
  have hassign := cost_intercalate (bytes ",") hlen (T.dirtyColumns dirty)
  rw [saveTexts_flatten, RecordType.saveTokens, cost_append, cost_append, cost_append, cost_plain, cost_plain, ← hcond,
    ← hassign]
  simp only [length_append, Outside.conditions, map_const', sum_replicate, smul_zero]
  omega

theorem quote_not_mem_decimal (n : ℤ) : quoteChar ∉ decimal n := by
  have hdigits : ∀ m : ℕ, quoteChar ∉ bytes m.repr := by
    intro m hm
    obtain ⟨c, hc, he⟩ := mem_map.mp hm
    rw [Nat.toList_repr] at hc
    have hd := Char.isDigit_iff_toNat.mp (Nat.isDigit_of_mem_toDigits (by omega) (by omega) hc)
    have hc' : c.toNat = 39 := by
      have := congrArg UInt8.toNat he
      rw [UInt8.toNat_ofNat'] at this
      have h0 : '0'.toNat = 48 := rfl
      have h9 : '9'.toNat = 57 := rfl
      have hq : quoteChar.toNat = 39 := rfl
      omega
    have h0 : '0'.toNat = 48 := rfl
    omega
  cases n with
  | ofNat m => exact hdigits m
  | negSucc m =>
    intro h
    have hs : decimal (Int.negSucc m) = 45 :: bytes (m + 1).repr := by
      simp [decimal, bytes, toString, Int.repr]
    rw [hs] at h
    rcases mem_cons.mp h with h | h
    · exact absurd h (by decide)
    · exact hdigits _ h

theorem unquoted_of_typed (hT : T.Named) (hrow : T.Typed row) (hprint : ∀ x, quoteChar ∉ out.printF x) :
    T.Unquoted out row where
  toNamed := hT
  values := by
    intro f hf hs
    cases hv : row f.id with
    | int n =>
      rw [Outside.printed]
      split
      · simp only [mem_append, not_or]
        exact ⟨⟨by decide, quote_not_mem_decimal _⟩, by decide⟩
      · exact quote_not_mem_decimal n
    | str v => exact absurd ((hrow f hf).mpr ⟨v, hv⟩) hs
    | real x => exact hprint x

theorem assignmentTokens_separate (h : T.Unquoted out row) {f : Field} (hf : f ∈ T.columns) {ts : List (Token UInt8)}
    (hts : Opens quoteChar ts) : Separate quoteChar (out.assignmentTokens row f ++ ts) := by
  rw [Outside.assignmentTokens, append_assoc]
  apply Separate.plain _ (valueTokens_separate h hf hts)
  simp only [mem_append, not_or]
  exact ⟨⟨by decide, h.names f hf⟩, by decide⟩

theorem conditions_plain (h : T.Unquoted out row) (hkeys : ∀ f ∈ T.keys, f.type ≠ .string) :
    (plain (bytes " and")).intercalate (T.keys.map (out.conditionTokens row)) = plain (out.conditions [] row T.keys) ∧
      quoteChar ∉ out.conditions [] row T.keys := by
  have htokens : T.keys.map (out.conditionTokens row) = (T.keys.map fun f =>
      bytes " " ++ [] ++ f.name ++ [] ++ bytes " = " ++ out.printed f.type (row f.id)).map plain := by
    rw [map_map]
    apply map_congr_left
    intro f hf
    rw [Outside.conditionTokens, Outside.valueTokens, if_neg (hkeys f hf)]
    simp only [comp_apply, append_nil, plain_append]
  refine ⟨by rw [htokens, plain_intercalate, Outside.conditions], ?_⟩
  apply not_mem_intercalate (by decide)
  intro text htext
  obtain ⟨f, hf, rfl⟩ := mem_map.mp htext
  have hcol := (RecordType.keys_required hf).1
  simp only [append_nil, mem_append, not_or]
  exact ⟨⟨⟨by decide, h.names f hcol⟩, by decide⟩, h.values f hcol (hkeys f hf)⟩

theorem saveTokens_render (h : T.Unquoted out row) (hkeys : ∀ f ∈ T.keys, f.type ≠ .string) (dirty : ℕ) :
    (T.saveTokens out row dirty).flatMap (Token.render quoteChar id) = (T.saveTexts out row dirty).flatten := by
  rw [saveTexts_flatten, RecordType.saveTokens, (conditions_plain h hkeys).1]
  simp only [flatMap_append, render_plain]
  rw [render_intercalate assignmentTokens_render]

theorem saveTokens_separate (h : T.Unquoted out row) (hkeys : ∀ f ∈ T.keys, f.type ≠ .string) (dirty : ℕ) :
    Separate quoteChar (T.saveTokens out row dirty) := by
  obtain ⟨hplain, hquote⟩ := conditions_plain h hkeys
  rw [RecordType.saveTokens, hplain, append_assoc, append_assoc, ← plain_append]
  apply Separate.plain
  · simp only [mem_append, not_or]
    exact ⟨⟨by decide, h.table⟩, by decide⟩
  · apply Opens.intercalate (by decide) (by decide)
    · intro f hf ts hts
      exact assignmentTokens_separate h (mem_of_mem_filter hf) hts
    · apply opens_plain
      rw [mem_append, not_or]
      exact ⟨by decide, hquote⟩

theorem saveTokens_stand (h : T.Unquoted out row) (hkeys : ∀ f ∈ T.keys, f.type ≠ .string) (dirty : ℕ) :
    (∀ t ∈ T.saveTokens out row dirty, t.Stands quoteChar escapeChar unescapeChar) ↔
      ∀ f ∈ T.dirtyColumns dirty, f.type = .string → StandsForItself (out.printed f.type (row f.id)) := by
  have hvalue : ∀ f, (∀ t ∈ out.assignmentTokens row f, t.Stands quoteChar escapeChar unescapeChar) ↔
      (f.type = .string → StandsForItself (out.printed f.type (row f.id))) := by
    intro f
    rw [Outside.assignmentTokens, forall_mem_append, Outside.valueTokens]
    constructor
    · intro hall hs
      rw [if_pos hs] at hall
      exact hall.2 _ (mem_singleton_self _)
    · intro hs
      refine ⟨stand_plain _, ?_⟩
      split
      · next hstr =>
        intro t ht
        rw [mem_singleton.mp ht]
        exact hs hstr
      · exact stand_plain _
  rw [RecordType.saveTokens, (conditions_plain h hkeys).1, forall_mem_append, forall_mem_append,
    forall_mem_append, stand_intercalate]
  constructor
  · intro hall f hf
    exact (hvalue f).mp (hall.1.1.2 f hf)
  · intro hall
    exact ⟨⟨⟨stand_plain _, fun f hf => (hvalue f).mpr (hall f hf)⟩, stand_plain _⟩, stand_plain _⟩

theorem take_append_cut (n : ℕ) (a b : List UInt8) : (a.take n ++ b).take n = (a ++ b).take n := by
  by_cases h : a.length ≤ n
  · rw [take_of_length_le h]
  · have hcut : (a.take n).length = n := by
      rw [length_take]
      omega
    rw [take_append_of_le_length (le_of_eq hcut.symm), take_take, Nat.min_self,
      take_append_of_le_length (by omega)]

theorem snprintf_cut (texts : List (List UInt8)) : ∀ b b' : SqlBuffer, b.text.length ≤ sqlSize - 1 →
    texts.foldlM snprintf b = .ok b' → b'.text = (b.text ++ texts.flatten).take (sqlSize - 1) := by
  induction texts with
  | nil =>
    intro b b' hb h
    obtain rfl := Except.ok.inj h
    rw [flatten_nil, append_nil, take_of_length_le hb]
  | cons text texts ih =>
    intro b b' hb h
    rw [foldlM_cons, snprintf] at h
    split at h
    · exact absurd h (by simp [bind, Except.bind])
    · rw [ok_bind] at h
      rw [ih _ b' (by rw [length_take]; exact Nat.min_le_left _ _) h, flatten_cons, ← append_assoc]
      exact take_append_cut _ _ _

theorem saveSql_cut {dirty : ℕ} {sql : List UInt8} (h : T.saveSql out row dirty = .ok sql) :
    sql = (T.saveTexts out row dirty).flatten.take (sqlSize - 1) := by
  unfold RecordType.saveSql at h
  cases hf : (T.saveTexts out row dirty).foldlM snprintf ⟨[], 0⟩ with
  | error e =>
    rw [hf] at h
    exact absurd h (by simp [bind, Except.bind])
  | ok b =>
    rw [hf, ok_bind] at h
    rw [← Except.ok.inj h]
    exact snprintf_cut _ ⟨[], 0⟩ b (Nat.zero_le _) hf

/-- The statement is read as it is meant exactly when it is quotable: whatever is not costs characters,
and there are none to spare. -/
theorem saveReadsBack_iff (h : T.Unquoted out row) (dirty : ℕ) :
    T.SaveReadsBack out row dirty ↔ T.Quotable out row dirty := by
  have hcost := @saveTexts_cost R out row T dirty
  constructor
  · intro hread
    obtain ⟨sql, hsql, hscan⟩ := hread
    have hle := cost_le unescapeChar_one sql .text _ hscan
    rw [saveSql_cut hsql] at hle hscan
    have hlen := length_take_le (sqlSize - 1) (T.saveTexts out row dirty).flatten
    have hfits : (T.saveTexts out row dirty).flatten.length < sqlSize := by
      have hsize : sqlSize = 4096 := rfl
      simp only [ScanMode.cost] at hle
      omega
    rw [take_of_length_le (by omega)] at hscan hle
    have hkeys : ∀ f ∈ T.keys, f.type ≠ .string := by
      intro f hf hs
      have hsum : 2 ≤ (T.keys.map fun f => if f.type = .string then 2 else 0).sum := by
        apply single_le_sum (fun _ _ => Nat.zero_le _)
        exact mem_map.mpr ⟨f, hf, if_pos hs⟩
      simp only [ScanMode.cost] at hle
      omega
    refine ⟨hkeys, ?_, hfits⟩
    rw [← saveTokens_render h hkeys] at hscan
    apply (saveTokens_stand h hkeys dirty).mp
    exact (scan_render_iff (by decide) unescapeChar_one (saveTokens_separate h hkeys dirty)).mp hscan
  · intro hq
    refine ⟨_, RecordType.saveSql_ok hq.fits, ?_⟩
    rw [scanSql, ← saveTokens_render h hq.keys]
    apply (scan_render_iff (by decide) unescapeChar_one (saveTokens_separate h hq.keys dirty)).mpr
    exact (saveTokens_stand h hq.keys dirty).mpr hq.strings

/-- The server reads what `database_escape_string` made of a string as that string. -/
def Escapes (escape : List UInt8 → List UInt8) : Prop :=
  ∀ v, ReadsAs quoteChar escapeChar unescapeChar (escape v) v

theorem newText_scan {escape : List UInt8 → List UInt8} (hesc : Escapes escape) (h : T.Unquoted out row) :
    scanSql (T.newText out escape row) = some (T.newTokens out row) := by
  have hcol : ∀ f ∈ T.inserted, f ∈ T.columns := fun f hf => mem_of_mem_filter hf
  have hrender : (T.newTokens out row).flatMap (Token.render quoteChar escape) = T.newText out escape row := by
    rw [RecordType.newTokens, RecordType.newText, flatMap_append, flatMap_append, render_plain, render_plain,
      render_intercalate (fun f => valueTokens_render escape f)]
  have hnames : quoteChar ∉ (bytes ", ").intercalate (T.inserted.map fun f => bytes "`" ++ f.name ++ bytes "`") := by
    apply not_mem_intercalate (by decide)
    intro text htext
    obtain ⟨f, hf, rfl⟩ := mem_map.mp htext
    simp only [mem_append, not_or]
    exact ⟨⟨by decide, h.names f (hcol f hf)⟩, by decide⟩
  have hsep : Separate quoteChar (T.newTokens out row) := by
    rw [RecordType.newTokens, append_assoc]
    apply Separate.plain
    · simp only [mem_append, not_or]
      exact ⟨⟨⟨⟨by decide, h.table⟩, by decide⟩, hnames⟩, by decide⟩
    · apply Opens.intercalate (by decide) (by decide)
      · intro f hf ts hts
        exact valueTokens_separate h (hcol f hf) hts
      · exact opens_plain (by decide)
  rw [scanSql, ← hrender]
  exact scan_renders hsep fun v _ => hesc v

end Statements

/-! ## Saved and loaded -/

section Saved
variable {T : RecordType} {out : Outside R} {s : Store R} {r : ℕ}

theorem dataUpdate_dirty (hrow : T.Typed (s.value r)) {f : Field} (hf : f ∈ T.columns) (hs : f.type = .string)
    {v : List UInt8} {s' : Store R} (h : s.dataUpdate out r f (.str v) = .ok s') :
    s'.value r f.id = .str v ∧ (s.value r f.id ≠ .str v → f ∈ T.dirtyColumns (s'.dirty r)) := by
  obtain ⟨w, hw⟩ := (hrow f hf).mp hs
  have hlive : s.alive r = true := by
    by_contra hdead
    rw [Store.dataUpdate, Store.access, if_neg hdead] at h
    exact absurd h (by simp [bind, Except.bind])
  rw [Store.dataUpdate, Store.access_ok hlive, ok_bind] at h
  by_cases hwv : w = v
  · have hsame : out.same (s.value r f.id) (.str v) = true := by
      rw [hw, Outside.same, hwv, decide_eq_true rfl]
    rw [if_pos hsame] at h
    obtain rfl := Except.ok.inj h
    rw [hw, hwv]
    exact ⟨rfl, fun hne => absurd rfl hne⟩
  · have hsame : ¬ out.same (s.value r f.id) (.str v) = true := by
      rw [hw, Outside.same, decide_eq_true_iff]
      exact hwv
    rw [if_neg hsame] at h
    have hchange : s'.value = (s.change r f (.str v)).value ∧ s'.dirty = (s.change r f (.str v)).dirty := by
      obtain rfl := Except.ok.inj h
      unfold Store.addToUpdateList
      split
      · exact ⟨rfl, rfl⟩
      · exact ⟨rfl, rfl⟩
    rw [hchange.1, hchange.2]
    unfold Store.change
    simp only [update_self]
    refine ⟨trivial, fun _ => mem_filter.mpr ⟨hf, ?_⟩⟩
    rw [Nat.testBit_or, Nat.testBit_shiftLeft]
    simp

variable [DecidableEq R]

theorem quotable_dataSave (hunq : T.Unquoted out (s.value r)) (hq : T.Quotable out (s.value r) (s.dirty r))
    (hdb : ∀ sql t, scanSql sql = some (T.saveTokens out (s.value r) (s.dirty r)) →
      out.query t sql = Table.update t (T.keyOf (s.value r)) (T.set (s.value r) (s.dirty r))) :
    s.CarriedOut T out r .done where
  done := rfl
  fits := hq.fits
  means := by
    intro t
    obtain ⟨sql, hsql, hscan⟩ := (saveReadsBack_iff hunq _).mpr hq
    rw [RecordType.saveSql_ok hq.fits] at hsql
    rw [Except.ok.inj hsql]
    exact hdb sql t hscan

end Saved

theorem setUuid_table (s : Store R) (r : ℕ) (id : ℤ) : (s.setUuid T r id).table = s.table := by
  unfold Store.setUuid
  split <;> rfl

/-- The statement that `DATA_X_new` sends is read as it is meant, with the strings of the record whatever they are, if it fits
into `sql`; if it does not, `database_update` writes past the end. -/
theorem dataNew_reads_back {escape : List UInt8 → List UInt8} (hesc : Escapes escape)
    (s : Store R) (r : ℕ) (hr : s.alive r = true) (h : T.Unquoted out (s.value r)) (lastId : ℤ) :
    ((T.newText out escape (s.value r)).length < sqlSize →
      ∃ sql s', scanSql sql = some (T.newTokens out (s.value r)) ∧
        s.dataNew T out escape r lastId .done = .ok (s', true) ∧ s'.table = out.query s.table sql) ∧
    (sqlSize ≤ (T.newText out escape (s.value r)).length →
      s.dataNew T out escape r lastId .done = .error .outOfBounds) := by
  unfold Store.dataNew
  rw [Store.access_ok hr, ok_bind]
  refine ⟨fun hfits => ?_, fun hlong => ?_⟩
  · rw [databaseUpdate_done hfits, ok_bind]
    exact ⟨_, _, newText_scan hesc h, rfl, setUuid_table ..⟩
  · rw [databaseUpdate, if_pos hlong]
    rfl

/-- For every record and every set of dirty fields, the statement of `DATA_X_save` holds exactly the strings
that are meant, each as one literal, just when it is quotable. The strings set by `DATA_X_update_f` are
then in the row that is loaded. -/
theorem dataSave_preserves_strings [DecidableEq R] (T : RecordType) (out : Outside R) (s : Store R) (r : ℕ)
    (hT : T.Named) (hprint : ∀ x, quoteChar ∉ out.printF x) (hr : s.alive r = true) (hrow : T.Typed (s.value r))
    (hdb : ∀ sql t, scanSql sql = some (T.saveTokens out (s.value r) (s.dirty r)) →
      out.query t sql = Table.update t (T.keyOf (s.value r)) (T.set (s.value r) (s.dirty r))) :
    (T.SaveReadsBack out (s.value r) (s.dirty r) ↔ T.Quotable out (s.value r) (s.dirty r)) ∧
    (∀ f ∈ T.columns, f.type = .string → ∀ v s', s.dataUpdate out r f (.str v) = .ok s' →
      s'.value r f.id = .str v ∧ (s.value r f.id ≠ .str v → f ∈ T.dirtyColumns (s'.dirty r))) ∧
    (T.Quotable out (s.value r) (s.dirty r) → s.dirty r ≠ 0 → ∃ s', s.dataSave T out r .done = .ok (s', true) ∧
      ∀ row, s.table (T.keyOf (s.value r)) = some row → ∃ row', s'.table (T.keyOf (s.value r)) = some row' ∧
        ∀ f ∈ T.dirtyColumns (s.dirty r), row' f.id = s.value r f.id) := by
  have hunq := @unquoted_of_typed R T out (s.value r) hT hrow hprint
  refine ⟨saveReadsBack_iff hunq _, fun f hf hs v s' hu => dataUpdate_dirty hrow hf hs hu, fun hq hd => ?_⟩
  refine ⟨_, (quotable_dataSave hunq hq hdb).dataSave hr hd, fun row hload => ?_⟩
  refine ⟨T.set (s.value r) (s.dirty r) row, ?_, fun f hf => ?_⟩
  · simp only [Store.clean, Table.update, update_self, hload, Option.map_some]
  · obtain ⟨hcol, hbit⟩ := mem_filter.mp hf
    have hany : T.columns.any (fun g => g.id = f.id) = true := any_eq_true.mpr ⟨f, hcol, decide_eq_true rfl⟩
    rw [RecordType.set, hany, hbit]
    rfl

def property : RecordType where
  table := bytes "property"
  fields := [⟨bytes "pid", 1, .uint64, true⟩, ⟨bytes "name", 2, .string, false⟩, ⟨bytes "create", 3, .fixed32, false⟩,
    ⟨bytes "login", 4, .fixed32, false⟩, ⟨bytes "logout", 5, .fixed32, false⟩, ⟨bytes "status", 6, .uint32, false⟩,
    ⟨bytes "ip", 7, .string, false⟩, ⟨bytes "played", 8, .uint32, false⟩, ⟨bytes "head", 9, .uint32, false⟩,
    ⟨bytes "vip_exp", 10, .uint32, false⟩, ⟨bytes "title", 11, .uint32, false⟩,
    ⟨bytes "total_star", 12, .uint32, false⟩, ⟨bytes "total_star_change_time", 13, .fixed32, false⟩,
    ⟨bytes "max_floor", 14, .uint32, false⟩, ⟨bytes "max_floor_change_time", 15, .fixed32, false⟩]
  sorted := by simp
  bits := by simp

def propertyRow (name : List UInt8) : Row UInt64 := fun i =>
  if i = 1 then .int 5 else if i = 2 then .str name else if i = 7 then .str [] else .int 0

def propertyOutside : Outside UInt64 where
  printF := fun _ => []
  eqF := fun x y => x == y
  query := fun t text =>
    if scanSql text = scanSql (bytes "update `property` set `name` = 'Bob' where pid = 5") then
      Table.update t [.int 5] (property.set (propertyRow (bytes "Bob")) 4)
    else t

def propertyStore (name : List UInt8) : Store UInt64 :=
  { Store.start 1 (fun _ => propertyRow name) (fun _ => some (propertyRow [])) 1000 with dirty := fun _ => 4 }

theorem property_typed (name : List UInt8) : property.Typed (propertyRow name) := by
  have hrow : ∀ i, (∃ v, propertyRow name i = .str v) ↔ i = 2 ∨ i = 7 := by
    intro i
    unfold propertyRow
    by_cases h2 : i = 2
    · simp [h2]
    · by_cases h7 : i = 7
      · simp [h7]
      · by_cases h1 : i = 1
        · simp [h1]
        · simp [h1, h2, h7]
  intro f hf
  rw [hrow]
  revert f
  decide

theorem property_named : property.Named := ⟨by decide, by decide⟩

theorem property_bob_quotable : property.Quotable propertyOutside (propertyRow (bytes "Bob")) 4 where
  keys := by decide
  strings := by
    have hdirty : property.dirtyColumns 4 = [⟨bytes "name", 2, .string, false⟩] := by decide
    intro f hf _
    rw [hdirty] at hf
    rw [mem_singleton.mp hf]
    exact .char (by decide) (by decide) (.char (by decide) (by decide) (.char (by decide) (by decide) .nil))
  fits := by decide +kernel

/-- What has a backslash put before it is the quote and the backslash. -/
def backslashed (v : List UInt8) : List UInt8 := v.flatMap fun c => if c = 39 ∨ c = 92 then [92, c] else [c]

theorem backslashed_reads : Escapes backslashed := by
  intro v
  induction v with
  | nil =>
    intro u rest
    simp [backslashed, scan]
  | cons c v ih =>
    intro u rest
    have hcons : backslashed (c :: v) = (if c = 39 ∨ c = 92 then [92, c] else [c]) ++ backslashed v := rfl
    have hunescape : c = 39 ∨ c = 92 → unescapeChar c = [c] := by
      rintro (rfl | rfl) <;> rfl
    have hrest := ih (u ++ [c]) rest
    rw [append_assoc] at hrest
    rw [hcons]
    split_ifs with h
    · simpa [scan, hunescape h, quoteChar, escapeChar] using hrest
    · have hne : c ≠ quoteChar ∧ c ≠ escapeChar := not_or.mp h
      simpa [scan, hne.1, hne.2] using hrest

/-- A player named `'`. -/
theorem dataNew_reads_back_quote : ∃ sql s', scanSql sql = some (property.newTokens propertyOutside (propertyRow [39])) ∧
    (propertyStore [39]).dataNew property propertyOutside backslashed 0 6 .done = .ok (s', true) ∧
    s'.table = propertyOutside.query (propertyStore [39]).table sql :=
  (dataNew_reads_back property propertyOutside backslashed_reads (propertyStore [39]) 0 rfl
    (unquoted_of_typed property_named (property_typed _) fun _ => not_mem_nil) 6).1 (by decide +kernel)

theorem dataSave_preserves_strings_bob :
    ∃ s', (propertyStore (bytes "Bob")).dataSave property propertyOutside 0 .done = .ok (s', true) ∧
      ∃ row', s'.table [.int 5] = some row' ∧ row' 2 = .str (bytes "Bob") := by
  have htokens : some (property.saveTokens propertyOutside (propertyRow (bytes "Bob")) 4) =
      scanSql (bytes "update `property` set `name` = 'Bob' where pid = 5") := by decide +kernel
  have hkey : property.keyOf (propertyRow (bytes "Bob")) = [.int 5] := by decide
  obtain ⟨-, -, hload⟩ := dataSave_preserves_strings property propertyOutside (propertyStore (bytes "Bob")) 0
    property_named (fun _ => not_mem_nil) rfl (property_typed _) (fun sql t hsql => by
      have hread : scanSql sql = scanSql (bytes "update `property` set `name` = 'Bob' where pid = 5") :=
        hsql.trans htokens
      have hdo : propertyOutside.query t sql =
          Table.update t [.int 5] (property.set (propertyRow (bytes "Bob")) 4) := if_pos hread
      rw [hdo, ← hkey]
      rfl)
  obtain ⟨s', hs', hrows⟩ := hload property_bob_quotable (by decide)
  obtain ⟨row', hrow', hval⟩ := hrows _ rfl
  have hrow5 : s'.table [.int 5] = some row' := by
    rw [← hkey]
    exact hrow'
  exact ⟨s', hs', row', hrow5, hval ⟨bytes "name", 2, .string, false⟩ (by decide)⟩

/-- A name with a quote in it: the literal ends at the quote. -/
theorem dataSave_breaks_quote :
    property.saveSql propertyOutside (propertyRow (bytes "O'Neil")) 4 =
      .ok (bytes "update `property` set `name` = 'O'Neil' where pid = 5") ∧
    ¬ property.SaveReadsBack propertyOutside (propertyRow (bytes "O'Neil")) 4 := by
  have hsql : property.saveSql propertyOutside (propertyRow (bytes "O'Neil")) 4 =
      .ok (bytes "update `property` set `name` = 'O'Neil' where pid = 5") := by decide +kernel
  refine ⟨hsql, fun hread => ?_⟩
  obtain ⟨sql, hs, hscan⟩ := hread
  obtain rfl := ok_unique hsql hs
  exact absurd hscan (by decide +kernel)

end CServer.CodeGenerate
