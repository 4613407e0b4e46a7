import CServer.Lib.Exec
import CServer.Lib.Chain
import CServer.CodeGenerate.RecordType

/-! # `code_generate`: write-behind persistence

The functions that `code_generate.cpp` emits for one record type. `DATA_X_update_f` changes a field in
memory and marks it dirty; `DATA_X_release` and `DATA_X_delete` hand a record over to be freed. All
three put the record on the update list, unless its `update_next` says that it is there already.
`DATA_X_flush` takes the list apart: it saves and frees what was released, frees what was deleted,
saves what has been dirty for long or has not changed for a while, and keeps the rest for later.

A record is an address, and each member of the struct is a function of the address. The members of a
record that was freed keep their last values here, and nothing reads them any more: every function
faults on a record that is not alive.
-/
namespace CServer.CodeGenerate
open CServer.Lib Function List

/-! ## The code -/

/-- A pointer to a record: null, `&voidX` at the end of the list, or a record. -/
inductive RecordPtr
  | null
  | sentinel
  | record (r : ℕ)
  deriving DecidableEq

inductive DataFlag
  | none
  | delete
  | release
  deriving DecidableEq

structure Store (R : Type) where
  alive : ℕ → Bool
  value : ℕ → Row R
  updateNext : ℕ → RecordPtr
  dirty : ℕ → ℕ
  dirtyTime : ℕ → ℕ
  lastChangeTime : ℕ → ℕ
  dataFlag : ℕ → DataFlag
  updateList : RecordPtr
  table : Table R
  current : ℕ
  count : ℕ

variable {R : Type}

/-- `count` records, as `DATA_X_load` or `DATA_X_new` leave them. -/
def Store.start (count : ℕ) (value : ℕ → Row R) (table : Table R) (now : ℕ) : Store R where
  alive := fun r => decide (r < count)
  value := value
  updateNext := fun _ => .null
  dirty := fun _ => 0
  dirtyTime := fun _ => 0
  lastChangeTime := fun _ => 0
  dataFlag := fun _ => .none
  updateList := .sentinel
  table := table
  current := now
  count := count

def Store.access (s : Store R) (r : ℕ) : Except Fault Unit := if s.alive r then .ok () else .error .outOfBounds

def Store.free (s : Store R) (r : ℕ) : Store R := { s with alive := update s.alive r false }

def Store.addToUpdateList (s : Store R) (r : ℕ) : Store R :=
  if s.updateNext r = .null then
    { s with updateNext := update s.updateNext r s.updateList, updateList := .record r }
  else s

def Store.change (s : Store R) (r : ℕ) (f : Field) (v : FieldValue R) : Store R :=
  { s with
    value := update s.value r (update (s.value r) f.id v)
    dirtyTime := if s.dirtyTime r = 0 then update s.dirtyTime r s.current else s.dirtyTime
    lastChangeTime := update s.lastChangeTime r s.current
    dirty := update s.dirty r (s.dirty r ||| 1 <<< f.id) }

def Store.setFlag (s : Store R) (r : ℕ) (flag : DataFlag) : Store R :=
  { s with dataFlag := update s.dataFlag r flag }

variable (T : RecordType) (out : Outside R)

def Store.dataUpdate (s : Store R) (r : ℕ) (f : Field) (v : FieldValue R) : Except Fault (Store R) := do
  s.access r
  if out.same (s.value r f.id) v then .ok s else .ok ((s.change r f v).addToUpdateList r)

def Store.dataRelease (s : Store R) (r : ℕ) : Except Fault (Store R) := do
  s.access r
  .ok ((s.setFlag r .release).addToUpdateList r)

/-- The three assignments after a statement that succeeded. -/
def Store.clean (s : Store R) (r : ℕ) : Store R :=
  { s with
    dirty := update s.dirty r 0
    dirtyTime := update s.dirtyTime r 0
    lastChangeTime := update s.lastChangeTime r 0 }

def Store.dataDelete (s : Store R) (r : ℕ) (answer : DbAnswer) : Except Fault (Store R × Bool) := do
  s.access r
  let (table, ok) ← databaseUpdate out s.table (T.deleteText out (s.value r)) answer
  let s := { s with table := table }
  if ok then .ok (((s.clean r).setFlag r .delete).addToUpdateList r, true) else .ok (s, false)

def Store.dataSave (s : Store R) (r : ℕ) (answer : DbAnswer) : Except Fault (Store R × Bool) := do
  s.access r
  if s.dirty r = 0 then .ok (s, true)
  else
    let sql ← T.saveSql out (s.value r) (s.dirty r)
    let (table, ok) ← databaseUpdate out s.table sql answer
    let s := { s with table := table }
    if ok then .ok (s.clean r, true) else .ok (s, false)

def Store.waited (s : Store R) (r : ℕ) : Bool :=
  decide ((s.current : ℤ) - s.dirtyTime r ≥ 30 ∨ (s.current : ℤ) - s.lastChangeTime r ≥ 5)

/-- One turn of the loop of `DATA_X_flush`, for the record that was taken off the list: the state and
`nosaved`. The loop does not look at what `DATA_X_save` returns. -/
def Store.flushRecord (s : Store R) (nosaved : RecordPtr) (r : ℕ) (answer : DbAnswer) :
    Except Fault (Store R × RecordPtr) :=
  match s.dataFlag r with
  | .release => do
    let (s, _) ← s.dataSave T out r answer
    .ok (s.free r, nosaved)
  | .delete => .ok (s.free r, nosaved)
  | .none =>
    if s.waited r then do
      let (s, _) ← s.dataSave T out r answer
      .ok (s, nosaved)
    else .ok ({ s with updateNext := update s.updateNext r nosaved }, .record r)

/-- The loop of `DATA_X_flush`; `answers r` is what becomes of the statement for record `r`. -/
def Store.flushLoop (answers : ℕ → DbAnswer) : ℕ → Store R → RecordPtr → Except Fault (Store R)
  | 0, _, _ => .error .diverges
  | fuel + 1, s, nosaved =>
    match s.updateList with
    | .sentinel => .ok { s with updateList := nosaved }
    | .null => .error .outOfBounds
    | .record r => do
      s.access r
      let s := { s with updateList := s.updateNext r, updateNext := update s.updateNext r .null }
      let (s, nosaved) ← s.flushRecord T out nosaved r (answers r)
      Store.flushLoop answers fuel s nosaved

def Store.dataFlush (s : Store R) (answers : ℕ → DbAnswer) : Except Fault (Store R) :=
  Store.flushLoop T out answers (s.count + 1) s .sentinel

inductive StoreAct (R : Type)
  | time (now : ℕ)
  | update (r : ℕ) (f : Field) (v : FieldValue R)
  | release (r : ℕ)
  | delete (r : ℕ) (answer : DbAnswer)
  | flush (answers : ℕ → DbAnswer)

def Store.step (s : Store R) : StoreAct R → Except Fault (Store R)
  | .time now => .ok { s with current := now }
  | .update r f v => s.dataUpdate out r f v
  | .release r => s.dataRelease r
  | .delete r answer => do
    let (s, _) ← s.dataDelete T out r answer
    .ok s
  | .flush answers => s.dataFlush T out answers

/-! ## The update list -/

/-- In a flush, `xs` is what is left of the update list and `ys` what was postponed; outside, `xs` is the
update list and nothing is postponed. A record is on one of the lists just when it has an
`update_next`. -/
structure Store.Lists (s : Store R) (nosaved : RecordPtr) (xs ys : List ℕ) : Prop where
  chain : Chain s.updateNext .record .sentinel s.updateList xs
  postponed : Chain s.updateNext .record .sentinel nosaved ys
  nodup : (xs ++ ys).Nodup
  live : ∀ r ∈ xs ++ ys, s.alive r = true
  off : ∀ r, r ∉ xs ++ ys → s.updateNext r = .null
  known : ∀ r, s.alive r = true → r < s.count

variable {T out} {s s' : Store R} {nosaved : RecordPtr} {xs ys : List ℕ} {r : ℕ}

theorem Store.access_ok (hr : s.alive r = true) : s.access r = .ok () := by rw [Store.access, if_pos hr]

theorem Store.start_lists (count : ℕ) (value : ℕ → Row R) (table : Table R) (now : ℕ) :
    (Store.start count value table now).Lists .sentinel [] [] :=
  ⟨rfl, rfl, nodup_nil, fun _ hr => absurd hr not_mem_nil, fun _ _ => rfl, fun _ hr => of_decide_eq_true hr⟩

theorem chain_head_ne_null {next : ℕ → RecordPtr} {head : RecordPtr} {xs : List ℕ}
    (h : Chain next .record .sentinel head xs) : head ≠ .null := by
  rcases h.head_mem with he | ⟨y, -, he⟩
  · rw [he]
    exact RecordPtr.noConfusion
  · rw [he]
    exact RecordPtr.noConfusion

theorem chain_next_ne_null {next : ℕ → RecordPtr} {head : RecordPtr} {xs : List ℕ}
    (h : Chain next .record .sentinel head xs) (hr : r ∈ xs) : next r ≠ .null := by
  rcases h.next_mem hr with he | ⟨y, -, he⟩
  · rw [he]
    exact RecordPtr.noConfusion
  · rw [he]
    exact RecordPtr.noConfusion

theorem Store.Lists.mem_iff (h : s.Lists nosaved xs ys) : r ∈ xs ++ ys ↔ s.updateNext r ≠ .null := by
  constructor
  · intro hr
    rcases mem_append.mp hr with hr | hr
    · exact chain_next_ne_null h.chain hr
    · exact chain_next_ne_null h.postponed hr
  · intro hn
    by_contra hr
    exact hn (h.off r hr)

theorem Store.Lists.congr (h : s.Lists nosaved xs ys) (halive : s'.alive = s.alive)
    (hnext : s'.updateNext = s.updateNext) (hlist : s'.updateList = s.updateList) (hcount : s'.count = s.count) :
    s'.Lists nosaved xs ys := by
  refine ⟨?_, ?_, h.nodup, ?_, ?_, ?_⟩
  · rw [hnext, hlist]
    exact h.chain
  · rw [hnext]
    exact h.postponed
  · rw [halive]
    exact h.live
  · rw [hnext]
    exact h.off
  · rw [halive, hcount]
    exact h.known

theorem Store.addToUpdateList_fields (s : Store R) (r : ℕ) : ∃ next list, s.addToUpdateList r =
    { s with updateNext := next, updateList := list } ∧ ∀ q, q ≠ r → next q = s.updateNext q := by
  by_cases hn : s.updateNext r = .null
  · exact ⟨update s.updateNext r s.updateList, .record r, if_pos hn, fun q hq => update_of_ne hq _ _⟩
  · exact ⟨s.updateNext, s.updateList, if_neg hn, fun q _ => rfl⟩

theorem Store.Lists.add (h : s.Lists .sentinel xs []) (hr : s.alive r = true) :
    ∃ xs', (s.addToUpdateList r).Lists .sentinel xs' [] ∧ (s.addToUpdateList r).updateNext r ≠ .null := by
  by_cases hn : s.updateNext r = .null
  · have hout : r ∉ xs := by
      intro hmem
      exact h.mem_iff.mp (mem_append_left _ hmem) hn
    rw [Store.addToUpdateList, if_pos hn]
    refine ⟨r :: xs, ⟨h.chain.push hout, rfl, ?_, fun q hq => ?_, fun q hq => ?_, h.known⟩, ?_⟩
    · have hnodup := h.nodup
      rw [append_nil] at hnodup ⊢
      exact nodup_cons.mpr ⟨hout, hnodup⟩
    · rw [append_nil] at hq
      rcases mem_cons.mp hq with rfl | hq
      · exact hr
      · exact h.live q (mem_append_left _ hq)
    · rw [append_nil, mem_cons, not_or] at hq
      show update s.updateNext r s.updateList q = .null
      rw [update_of_ne hq.1]
      exact h.off q (by rw [append_nil]; exact hq.2)
    · show update s.updateNext r s.updateList r ≠ .null
      rw [update_self]
      exact chain_head_ne_null h.chain
  · rw [Store.addToUpdateList, if_neg hn]
    exact ⟨xs, h, hn⟩

theorem Store.Lists.pop (h : s.Lists nosaved (r :: xs) ys) :
    ({ s with updateList := s.updateNext r, updateNext := update s.updateNext r .null } : Store R).Lists
      nosaved xs ys ∧ r ∉ xs ++ ys ∧ s.alive r = true := by
  have hnodup := h.nodup
  rw [cons_append, nodup_cons] at hnodup
  have hxs : r ∉ xs := fun hmem => hnodup.1 (mem_append_left _ hmem)
  have hys : r ∉ ys := fun hmem => hnodup.1 (mem_append_right _ hmem)
  have hlive : ∀ q ∈ xs ++ ys, s.alive q = true := fun q hq => h.live q (mem_cons_of_mem _ hq)
  refine ⟨⟨h.chain.2.update hxs _, h.postponed.update hys _, hnodup.2, hlive, fun q hq => ?_, h.known⟩, hnodup.1,
    h.live r (mem_cons_self ..)⟩
  show update s.updateNext r .null q = .null
  by_cases hqr : q = r
  · subst hqr
    exact update_self ..
  · rw [update_of_ne hqr]
    refine h.off q ?_
    rw [cons_append, mem_cons, not_or]
    exact ⟨hqr, hq⟩

theorem Store.Lists.free (h : s.Lists nosaved xs ys) (hout : r ∉ xs ++ ys) : (s.free r).Lists nosaved xs ys := by
  refine ⟨h.chain, h.postponed, h.nodup, fun q hq => ?_, h.off, fun q hq => ?_⟩
  · have hqr : q ≠ r := by
      rintro rfl
      exact hout hq
    exact (update_of_ne hqr _ _).trans (h.live q hq)
  · by_cases hqr : q = r
    · subst hqr
      exact absurd hq (by simp only [Store.free, update_self, Bool.false_eq_true, not_false_eq_true])
    · exact h.known q ((update_of_ne hqr _ _).symm.trans hq)

theorem Store.Lists.postpone (h : s.Lists nosaved xs ys) (hout : r ∉ xs ++ ys) (hr : s.alive r = true) :
    ({ s with updateNext := update s.updateNext r nosaved } : Store R).Lists (.record r) xs (r :: ys) := by
  rw [mem_append, not_or] at hout
  have hmem : ∀ q, q ∈ xs ++ r :: ys ↔ q = r ∨ q ∈ xs ++ ys := by
    intro q
    rw [mem_append, mem_append, mem_cons]
    exact or_left_comm
  refine ⟨h.chain.update hout.1 _, h.postponed.push hout.2, ?_, fun q hq => ?_, fun q hq => ?_, h.known⟩
  · rw [nodup_middle, nodup_cons, mem_append, not_or]
    exact ⟨hout, h.nodup⟩
  · rcases (hmem q).mp hq with rfl | hq
    · exact hr
    · exact h.live q hq
  · rw [hmem q, not_or] at hq
    show update s.updateNext r nosaved q = .null
    rw [update_of_ne hq.1]
    exact h.off q hq.2

/-! ## Saving -/

structure Store.SavedOnly (s s' : Store R) (r : ℕ) : Prop where
  alive : s'.alive = s.alive
  value : s'.value = s.value
  updateNext : s'.updateNext = s.updateNext
  updateList : s'.updateList = s.updateList
  dataFlag : s'.dataFlag = s.dataFlag
  current : s'.current = s.current
  count : s'.count = s.count
  others : ∀ q, q ≠ r → s'.dirty q = s.dirty q ∧ s'.dirtyTime q = s.dirtyTime q ∧
    s'.lastChangeTime q = s.lastChangeTime q

theorem Store.clean_others (s : Store R) {q : ℕ} (hq : q ≠ r) : (s.clean r).dirty q = s.dirty q ∧
    (s.clean r).dirtyTime q = s.dirtyTime q ∧ (s.clean r).lastChangeTime q = s.lastChangeTime q :=
  ⟨update_of_ne hq _ _, update_of_ne hq _ _, update_of_ne hq _ _⟩

theorem Store.dataSave_only {answer : DbAnswer} {b : Bool} (h : s.dataSave T out r answer = .ok (s', b)) :
    s.SavedOnly s' r := by
  obtain ⟨-, -, h⟩ := bind_ok_iff.mp h
  split at h
  · obtain ⟨rfl, -⟩ := ok_pair_inj h
    exact ⟨rfl, rfl, rfl, rfl, rfl, rfl, rfl, fun q _ => ⟨rfl, rfl, rfl⟩⟩
  · obtain ⟨sql, -, h⟩ := bind_ok_iff.mp h
    obtain ⟨⟨table, ok⟩, -, h⟩ := bind_ok_iff.mp h
    cases ok with
    | true =>
      obtain ⟨rfl, -⟩ := ok_pair_inj h
      exact ⟨rfl, rfl, rfl, rfl, rfl, rfl, rfl, fun q hq => Store.clean_others _ hq⟩
    | false =>
      obtain ⟨rfl, -⟩ := ok_pair_inj h
      exact ⟨rfl, rfl, rfl, rfl, rfl, rfl, rfl, fun q _ => ⟨rfl, rfl, rfl⟩⟩

theorem Store.Lists.saved (h : s.Lists nosaved xs ys) (hs : s.SavedOnly s' r) : s'.Lists nosaved xs ys :=
  h.congr hs.alive hs.updateNext hs.updateList hs.count

theorem Store.Lists.flushRecord {answer : DbAnswer} {nosaved' : RecordPtr} (h : s.Lists nosaved xs ys)
    (hout : r ∉ xs ++ ys) (hr : s.alive r = true)
    (hflush : s.flushRecord T out nosaved r answer = .ok (s', nosaved')) :
    ∃ ys', s'.Lists nosaved' xs ys' := by
  rw [Store.flushRecord] at hflush
  split at hflush
  · obtain ⟨⟨s₁, b⟩, hsave, he⟩ := bind_ok_iff.mp hflush
    obtain ⟨rfl, rfl⟩ := ok_pair_inj he
    exact ⟨ys, (h.saved (Store.dataSave_only hsave)).free hout⟩
  · obtain ⟨rfl, rfl⟩ := ok_pair_inj hflush
    exact ⟨ys, h.free hout⟩
  · split at hflush
    · obtain ⟨⟨s₁, b⟩, hsave, he⟩ := bind_ok_iff.mp hflush
      obtain ⟨rfl, rfl⟩ := ok_pair_inj he
      exact ⟨ys, h.saved (Store.dataSave_only hsave)⟩
    · obtain ⟨rfl, rfl⟩ := ok_pair_inj hflush
      exact ⟨r :: ys, h.postpone hout hr⟩

/-! ## Nothing is lost -/

/-- Every record that is not deleted has its row, which differs from the record at most in the columns of
dirty fields; a released record was clean when it was freed; and no two records share a row. -/
structure Store.Saved (T : RecordType) (s : Store R) : Prop where
  rows : ∀ r < s.count, s.dataFlag r ≠ .delete → ∃ row, s.table (T.keyOf (s.value r)) = some row ∧
    ∀ f ∈ T.columns, (s.dirty r).testBit f.id = false → row f.id = s.value r f.id
  freed : ∀ r < s.count, s.alive r = false → s.dataFlag r = .release → s.dirty r = 0
  unique : ∀ r < s.count, ∀ q < s.count, T.keyOf (s.value r) = T.keyOf (s.value q) → r = q

theorem Store.Saved.free (h : s.Saved T) (hr : s.dataFlag r = .release → s.dirty r = 0) : (s.free r).Saved T := by
  refine ⟨h.rows, fun q hq hdead hfq => ?_, h.unique⟩
  by_cases hqr : q = r
  · subst hqr
    exact hr hfq
  · exact h.freed q hq ((update_of_ne hqr _ _).symm.trans hdead) hfq

section
variable [DecidableEq R]

/-- The database carries out the save of a record: it answers so, the statement fits into `sql`, and the
server reads its text as the update that is meant. -/
structure Store.CarriedOut (T : RecordType) (out : Outside R) (s : Store R) (r : ℕ) (answer : DbAnswer) : Prop where
  done : answer = .done
  fits : (T.saveTexts out (s.value r) (s.dirty r)).flatten.length < sqlSize
  means : ∀ t, out.query t (T.saveTexts out (s.value r) (s.dirty r)).flatten =
    Table.update t (T.keyOf (s.value r)) (T.set (s.value r) (s.dirty r))

theorem Store.CarriedOut.dataSave {answer : DbAnswer} (hc : s.CarriedOut T out r answer) (hr : s.alive r = true)
    (hd : s.dirty r ≠ 0) : s.dataSave T out r answer = .ok (({ s with
      table := Table.update s.table (T.keyOf (s.value r)) (T.set (s.value r) (s.dirty r)) } : Store R).clean r, true) := by
  obtain ⟨rfl, hfits, hmeans⟩ := hc
  simp only [Store.dataSave, Store.access_ok hr, ok_bind, hd, if_false, RecordType.saveSql_ok hfits,
    databaseUpdate_done hfits, hmeans, if_true]

theorem Store.Saved.save (h : s.Saved T) (hr : r < s.count) (hflag : s.dataFlag r ≠ .delete) :
    (({ s with table := Table.update s.table (T.keyOf (s.value r)) (T.set (s.value r) (s.dirty r)) } : Store R).clean
      r).Saved T := by
  refine ⟨fun q hq hfq => ?_, fun q hq hdead hfq => ?_, h.unique⟩
  · obtain ⟨row, hrow, hclean⟩ := h.rows q hq hfq
    by_cases hqr : q = r
    · subst hqr
      refine ⟨T.set (s.value q) (s.dirty q) row, ?_, fun f hf _ => ?_⟩
      · show Table.update s.table _ _ (T.keyOf (s.value q)) = _
        rw [Table.update, update_self, hrow]
        rfl
      · show T.set (s.value q) (s.dirty q) row f.id = s.value q f.id
        have hany : T.columns.any (fun g => g.id = f.id) = true := any_eq_true.mpr ⟨f, hf, by simp⟩
        rw [RecordType.set, hany, Bool.true_and]
        by_cases hbit : (s.dirty q).testBit f.id = true
        · rw [if_pos hbit]
        · rw [if_neg hbit]
          exact hclean f hf (Bool.eq_false_of_not_eq_true hbit)
    · have hkey : T.keyOf (s.value q) ≠ T.keyOf (s.value r) := fun he => hqr (h.unique q hq r hr he)
      refine ⟨row, ?_, fun f hf hbit => hclean f hf ?_⟩
      · show Table.update s.table _ _ (T.keyOf (s.value q)) = _
        rw [Table.update, update_of_ne hkey]
        exact hrow
      · rw [← (Store.clean_others _ hqr).1]
        exact hbit
  · by_cases hqr : q = r
    · subst hqr
      exact update_self ..
    · rw [(Store.clean_others _ hqr).1]
      exact h.freed q hq hdead hfq

theorem Store.Saved.dataSave {answer : DbAnswer} (h : s.Saved T) (hr : s.alive r = true) (hcount : r < s.count)
    (hflag : s.dataFlag r ≠ .delete) (hc : s.dirty r ≠ 0 → s.CarriedOut T out r answer) :
    ∃ s' b, s.dataSave T out r answer = .ok (s', b) ∧ s'.Saved T ∧ s'.dirty r = 0 := by
  by_cases hd : s.dirty r = 0
  · refine ⟨s, true, ?_, h, hd⟩
    simp only [Store.dataSave, Store.access_ok hr, ok_bind, hd, if_true]
  · exact ⟨_, _, (hc hd).dataSave hr hd, h.save hcount hflag, update_self ..⟩

/-- The flush saves the record: it is dirty, and was released, or has waited long enough. -/
def Store.due (s : Store R) (r : ℕ) : Prop :=
  s.dirty r ≠ 0 ∧ (s.dataFlag r = .release ∨ s.dataFlag r = .none ∧ s.waited r = true)

theorem Store.Saved.flushRecord {answer : DbAnswer} (h : s.Saved T) (hlists : s.Lists nosaved xs ys)
    (hr : s.alive r = true) (hlisted : ∀ q, q ≠ r → s.alive q = true → s.dirty q ≠ 0 → s.updateNext q ≠ .null)
    (hc : s.due r → s.CarriedOut T out r answer) :
    ∃ s' nosaved', s.flushRecord T out nosaved r answer = .ok (s', nosaved') ∧ s'.Saved T ∧
      ∀ q, s'.alive q = true → s'.dirty q ≠ 0 → s'.updateNext q ≠ .null := by
  have hcount := hlists.known r hr
  have hothers : ∀ {s' : Store R}, s.SavedOnly s' r → s'.dirty r = 0 → ∀ q, s'.alive q = true → s'.dirty q ≠ 0 →
      s'.updateNext q ≠ .null := by
    intro s' hsame hclean q hq hd
    have hqr : q ≠ r := by
      rintro rfl
      exact hd hclean
    rw [hsame.alive] at hq
    rw [(hsame.others q hqr).1] at hd
    rw [hsame.updateNext]
    exact hlisted q hqr hq hd
  cases hflag : s.dataFlag r with
  | release =>
    obtain ⟨s', b, hsave, hs', hclean⟩ := @Store.Saved.dataSave R T out s r _ answer h hr hcount (by rw [hflag]; simp)
      (fun hd => hc ⟨hd, .inl hflag⟩)
    have hsame := Store.dataSave_only hsave
    refine ⟨s'.free r, nosaved, ?_, hs'.free fun _ => hclean, fun q hq hd => ?_⟩
    · simp only [Store.flushRecord, hflag, hsave, ok_bind]
    · have hqr : q ≠ r := by
        rintro rfl
        exact hd hclean
      exact hothers hsame hclean q ((update_of_ne hqr _ _).symm.trans hq) hd
  | delete =>
    refine ⟨s.free r, nosaved, by simp only [Store.flushRecord, hflag], h.free (by rw [hflag]; simp), fun q hq hd => ?_⟩
    have hqr : q ≠ r := by
      rintro rfl
      exact absurd hq (by simp only [Store.free, update_self, Bool.false_eq_true, not_false_eq_true])
    exact hlisted q hqr ((update_of_ne hqr _ _).symm.trans hq) hd
  | none =>
    by_cases hw : s.waited r = true
    · obtain ⟨s', b, hsave, hs', hclean⟩ := @Store.Saved.dataSave R T out s r _ answer h hr hcount (by rw [hflag]; simp)
        (fun hd => hc ⟨hd, .inr ⟨hflag, hw⟩⟩)
      refine ⟨s', nosaved, ?_, hs', hothers (Store.dataSave_only hsave) hclean⟩
      simp only [Store.flushRecord, hflag, hw, if_true, hsave, ok_bind]
    · refine ⟨{ s with updateNext := update s.updateNext r nosaved }, .record r, ?_, ⟨h.rows, h.freed, h.unique⟩,
        fun q hq hd => ?_⟩
      · simp only [Store.flushRecord, hflag, hw, if_false, Bool.false_eq_true]
      · show update s.updateNext r nosaved q ≠ .null
        by_cases hqr : q = r
        · subst hqr
          rw [update_self]
          exact chain_head_ne_null hlists.postponed
        · rw [update_of_ne hqr]
          exact hlisted q hqr hq hd

end

end CServer.CodeGenerate
