import CServer.CodeGenerate.WriteBehind

/-! # Runs of write-behind persistence

Every sequence of `DATA_X_update_f`, `DATA_X_release`, `DATA_X_delete` and `DATA_X_flush` for one record type, on records that
are still there. What is lost is lost in `DATA_X_flush`, which takes a record off the list before it saves it and does not
look at what `DATA_X_save` returns.
-/
namespace CServer.CodeGenerate
open CServer.Lib Function List Nat

variable {R : Type} {T : RecordType} {out : Outside R} {s s' : Store R} {nosaved : RecordPtr} {xs ys : List ℕ} {r : ℕ}

/-- The calls that can be made: on records that were not freed, and of the update functions there are. -/
def Store.Callable (T : RecordType) (s : Store R) : StoreAct R → Prop
  | .time _ => True
  | .update r f _ => s.alive r = true ∧ f ∈ T.columns ∧ f.required = false
  | .release r => s.alive r = true
  | .delete r _ => s.alive r = true
  | .flush _ => True

/-! ## The update list in every run -/

theorem Store.Lists.finish (h : s.Lists nosaved [] ys) :
    ({ s with updateList := nosaved } : Store R).Lists .sentinel ys [] := by
  have hnodup := h.nodup
  have hlive := h.live
  have hoff := h.off
  rw [nil_append] at hnodup hlive hoff
  refine ⟨h.postponed, rfl, ?_, ?_, ?_, h.known⟩
  · rw [append_nil]
    exact hnodup
  · rw [append_nil]
    exact hlive
  · rw [append_nil]
    exact hoff

theorem Store.Lists.flushLoop {answers : ℕ → DbAnswer} (xs : List ℕ) : ∀ {s s' : Store R} {nosaved : RecordPtr}
    {ys : List ℕ} {fuel : ℕ}, s.Lists nosaved xs ys → Store.flushLoop T out answers fuel s nosaved = .ok s' →
    ∃ xs', s'.Lists .sentinel xs' [] := by
  induction xs with
  | nil =>
    intro s s' nosaved ys fuel h hloop
    have hlist : s.updateList = .sentinel := h.chain
    cases fuel with
    | zero => cases hloop
    | succ n =>
      simp only [Store.flushLoop, hlist] at hloop
      obtain rfl := Except.ok.inj hloop
      exact ⟨ys, h.finish⟩
  | cons r xs ih =>
    intro s s' nosaved ys fuel h hloop
    have hlist : s.updateList = .record r := h.chain.1
    obtain ⟨h₁, hout, hr⟩ := h.pop
    cases fuel with
    | zero => cases hloop
    | succ n =>
      simp only [Store.flushLoop, hlist, Store.access_ok hr, ok_bind] at hloop
      obtain ⟨⟨s₂, nosaved₂⟩, hrec, hrest⟩ := bind_ok_iff.mp hloop
      obtain ⟨ys₂, h₂⟩ := h₁.flushRecord hout hr hrec
      exact ih h₂ hrest

theorem Store.Lists.step {a : StoreAct R} (h : s.Lists .sentinel xs []) (hcall : s.Callable T a)
    (hstep : s.step T out a = .ok s') : ∃ xs', s'.Lists .sentinel xs' [] := by
  cases a with
  | time now =>
    obtain rfl := Except.ok.inj hstep
    exact ⟨xs, h.congr rfl rfl rfl rfl⟩
  | update r f v =>
    obtain ⟨-, -, hstep⟩ := bind_ok_iff.mp hstep
    split at hstep
    · obtain rfl := Except.ok.inj hstep
      exact ⟨xs, h⟩
    · obtain rfl := Except.ok.inj hstep
      have h₁ : (s.change r f v).Lists .sentinel xs [] := h.congr rfl rfl rfl rfl
      obtain ⟨xs', h', -⟩ := h₁.add hcall.1
      exact ⟨xs', h'⟩
  | release r =>
    obtain ⟨-, -, hstep⟩ := bind_ok_iff.mp hstep
    obtain rfl := Except.ok.inj hstep
    have h₁ : (s.setFlag r .release).Lists .sentinel xs [] := h.congr rfl rfl rfl rfl
    obtain ⟨xs', h', -⟩ := h₁.add hcall
    exact ⟨xs', h'⟩
  | delete r answer =>
    obtain ⟨⟨s₁, b⟩, hdel, he⟩ := bind_ok_iff.mp hstep
    obtain rfl := Except.ok.inj he
    obtain ⟨-, -, hdel⟩ := bind_ok_iff.mp hdel
    obtain ⟨⟨table, ok⟩, -, hdel⟩ := bind_ok_iff.mp hdel
    cases ok with
    | true =>
      obtain ⟨rfl, -⟩ := ok_pair_inj hdel
      have h₁ : ((({ s with table := table } : Store R).clean r).setFlag r .delete).Lists .sentinel xs [] :=
        h.congr rfl rfl rfl rfl
      obtain ⟨xs', h', -⟩ := h₁.add hcall
      exact ⟨xs', h'⟩
    | false =>
      obtain ⟨rfl, -⟩ := ok_pair_inj hdel
      exact ⟨xs, h.congr rfl rfl rfl rfl⟩
  | flush answers => exact h.flushLoop xs hstep

theorem Store.Lists.length_lt (h : s.Lists .sentinel xs []) : xs.length < s.count + 1 := by
  have hnodup := h.nodup
  rw [append_nil] at hnodup
  have hsub : xs.Subperm (List.range s.count) := hnodup.subperm fun r hr =>
    mem_range.mpr (h.known r (h.live r (mem_append_left _ hr)))
  have hle := hsub.length_le
  rw [length_range] at hle
  exact lt_succ_of_le hle

/-- The update list runs without a cycle to its sentinel and holds no record twice. -/
def Store.IsUpdateList (s : Store R) (xs : List ℕ) : Prop :=
  Chain s.updateNext .record .sentinel s.updateList xs ∧ xs.Nodup ∧ ∀ r ∈ xs, s.alive r = true

theorem Store.Lists.isUpdateList (h : s.Lists .sentinel xs []) : s.IsUpdateList xs := by
  have hnodup := h.nodup
  have hlive := h.live
  rw [append_nil] at hnodup hlive
  exact ⟨h.chain, hnodup, hlive⟩

/-! ## Nothing is lost -/

def Store.DirtyListed (s : Store R) : Prop := ∀ r, s.alive r = true → s.dirty r ≠ 0 → s.updateNext r ≠ .null

theorem Store.ne_of_dead {q : ℕ} (hq : s.alive q = false) (hr : s.alive r = true) : q ≠ r := by
  rintro rfl
  exact Bool.false_ne_true (hq.symm.trans hr)

theorem Store.Saved.add (h : s.Saved T) (r : ℕ) : (s.addToUpdateList r).Saved T := by
  obtain ⟨next, list, he, -⟩ := s.addToUpdateList_fields r
  rw [he]
  exact ⟨h.rows, h.freed, h.unique⟩

theorem Store.Lists.add_listed (h : s.Lists .sentinel xs []) (hr : s.alive r = true)
    (hlisted : ∀ q, q ≠ r → s.alive q = true → s.dirty q ≠ 0 → s.updateNext q ≠ .null) :
    (s.addToUpdateList r).DirtyListed := by
  obtain ⟨-, -, hself⟩ := h.add hr
  obtain ⟨next, list, he, hother⟩ := s.addToUpdateList_fields r
  intro q hq hd
  by_cases hqr : q = r
  · subst hqr
    exact hself
  · rw [he] at hq hd ⊢
    show next q ≠ .null
    rw [hother q hqr]
    exact hlisted q hqr hq hd

theorem RecordType.keyOf_update {f : Field} (hf : f ∈ T.columns) (hreq : f.required = false) (row : Row R)
    (v : FieldValue R) : T.keyOf (update row f.id v) = T.keyOf row := by
  refine map_congr_left fun g hg => ?_
  obtain ⟨hg', hgreq⟩ := RecordType.keys_required hg
  have hid : g.id ≠ f.id := by
    intro he
    rw [RecordType.eq_of_id hg' hf he, hreq] at hgreq
    cases hgreq
  exact update_of_ne hid _ _

theorem Store.Saved.change (h : s.Saved T) {f : Field} (v : FieldValue R) (hr : s.alive r = true)
    (hf : f ∈ T.columns) (hreq : f.required = false) : (s.change r f v).Saved T := by
  have hkey : ∀ q, T.keyOf ((s.change r f v).value q) = T.keyOf (s.value q) := by
    intro q
    by_cases hqr : q = r
    · subst hqr
      show T.keyOf (update s.value q (update (s.value q) f.id v) q) = _
      rw [update_self, RecordType.keyOf_update hf hreq]
    · exact congrArg T.keyOf (update_of_ne hqr _ _)
  refine ⟨fun q hq hflag => ?_, fun q hq hdead hflag => ?_, fun q hq q' hq' he => ?_⟩
  · obtain ⟨row, hrow, hclean⟩ := h.rows q hq hflag
    refine ⟨row, by rw [hkey q]; exact hrow, fun g hg hbit => ?_⟩
    by_cases hqr : q = r
    · subst hqr
      have hbit : (update s.dirty q (s.dirty q ||| 1 <<< f.id) q).testBit g.id = false := hbit
      rw [update_self, testBit_or, Bool.or_eq_false_iff] at hbit
      have hid : g.id ≠ f.id := by
        intro he
        rw [he, one_shiftLeft, testBit_two_pow_self] at hbit
        exact Bool.false_ne_true hbit.2.symm
      show row g.id = update s.value q (update (s.value q) f.id v) q g.id
      rw [update_self, update_of_ne hid]
      exact hclean g hg hbit.1
    · have hbit : (update s.dirty r (s.dirty r ||| 1 <<< f.id) q).testBit g.id = false := hbit
      show row g.id = update s.value r (update (s.value r) f.id v) q g.id
      rw [update_of_ne hqr] at hbit ⊢
      exact hclean g hg hbit
  · have hqr := Store.ne_of_dead hdead hr
    exact (update_of_ne hqr _ _).trans (h.freed q hq hdead hflag)
  · rw [hkey, hkey] at he
    exact h.unique q hq q' hq' he

theorem Store.setFlag_other (s : Store R) {q : ℕ} (hq : q ≠ r) (flag : DataFlag) :
    (s.setFlag r flag).dataFlag q = s.dataFlag q := update_of_ne hq _ _

theorem Store.Saved.release (h : s.Saved T) (hr : s.alive r = true) (hflag : s.dataFlag r ≠ .delete) :
    (s.setFlag r .release).Saved T := by
  refine ⟨fun q hq hfq => h.rows q hq ?_, fun q hq hdead hfq => ?_, h.unique⟩
  · by_cases hqr : q = r
    · rw [hqr]
      exact hflag
    · rw [← s.setFlag_other hqr .release]
      exact hfq
  · have hqr := Store.ne_of_dead hdead hr
    exact h.freed q hq hdead ((s.setFlag_other hqr .release).symm.trans hfq)

theorem Store.flushRecord_others {answer : DbAnswer} {nosaved' : RecordPtr}
    (h : s.flushRecord T out nosaved r answer = .ok (s', nosaved')) :
    s'.value = s.value ∧ s'.dataFlag = s.dataFlag ∧ s'.current = s.current ∧ ∀ q, q ≠ r →
      s'.alive q = s.alive q ∧ s'.dirty q = s.dirty q ∧ s'.dirtyTime q = s.dirtyTime q ∧
      s'.lastChangeTime q = s.lastChangeTime q := by
  rw [Store.flushRecord] at h
  split at h
  · obtain ⟨⟨s₁, b⟩, hsave, he⟩ := bind_ok_iff.mp h
    obtain ⟨rfl, -⟩ := ok_pair_inj he
    have hs := Store.dataSave_only hsave
    refine ⟨hs.value, hs.dataFlag, hs.current, fun q hq => ⟨?_, hs.others q hq⟩⟩
    exact (update_of_ne hq _ _).trans (congrFun hs.alive q)
  · obtain ⟨rfl, -⟩ := ok_pair_inj h
    exact ⟨rfl, rfl, rfl, fun q hq => ⟨update_of_ne hq _ _, rfl, rfl, rfl⟩⟩
  · split at h
    · obtain ⟨⟨s₁, b⟩, hsave, he⟩ := bind_ok_iff.mp h
      obtain ⟨rfl, -⟩ := ok_pair_inj he
      have hs := Store.dataSave_only hsave
      exact ⟨hs.value, hs.dataFlag, hs.current, fun q hq => ⟨congrFun hs.alive q, hs.others q hq⟩⟩
    · obtain ⟨rfl, -⟩ := ok_pair_inj h
      exact ⟨rfl, rfl, rfl, fun q _ => ⟨rfl, rfl, rfl, rfl⟩⟩

variable [DecidableEq R]

theorem Store.Saved.delete (h : s.Saved T) (hr : s.alive r = true) (hcount : r < s.count) :
    ((({ s with table := Table.delete s.table (T.keyOf (s.value r)) } : Store R).clean r).setFlag r .delete).Saved T := by
  refine ⟨fun q hq hfq => ?_, fun q hq hdead hfq => ?_, h.unique⟩
  · have hqr : q ≠ r := by
      rintro rfl
      exact hfq (update_self ..)
    have hkey : T.keyOf (s.value q) ≠ T.keyOf (s.value r) := fun he => hqr (h.unique q hq r hcount he)
    obtain ⟨row, hrow, hclean⟩ := h.rows q hq (by rw [← s.setFlag_other hqr .delete]; exact hfq)
    refine ⟨row, ?_, fun f hf hbit => hclean f hf ?_⟩
    · show Table.delete s.table _ (T.keyOf (s.value q)) = _
      rw [Table.delete, update_of_ne hkey]
      exact hrow
    · rw [← update_of_ne hqr 0 s.dirty]
      exact hbit
  · have hqr := Store.ne_of_dead hdead hr
    exact (update_of_ne hqr _ _).trans (h.freed q hq hdead ((s.setFlag_other hqr .delete).symm.trans hfq))

/-- The condition: every save that a flush owes is carried out; a deletion that succeeds deletes the
row; and a record that was deleted is not released. -/
def Store.Condition (T : RecordType) (out : Outside R) (s : Store R) : StoreAct R → Prop
  | .time _ => True
  | .update _ _ _ => True
  | .release r => s.dataFlag r ≠ .delete
  | .delete r answer => (T.deleteText out (s.value r)).length < sqlSize ∧
    (answer = .done → ∀ t, out.query t (T.deleteText out (s.value r)) = Table.delete t (T.keyOf (s.value r)))
  | .flush answers => ∀ r, s.alive r = true → s.due r → s.CarriedOut T out r (answers r)

theorem Store.CarriedOut.congr {answer : DbAnswer} (h : s.due r → s.CarriedOut T out r answer)
    (hvalue : s'.value r = s.value r) (hflag : s'.dataFlag r = s.dataFlag r) (hcurrent : s'.current = s.current)
    (hdirty : s'.dirty r = s.dirty r) (hdt : s'.dirtyTime r = s.dirtyTime r)
    (hlc : s'.lastChangeTime r = s.lastChangeTime r) : s'.due r → s'.CarriedOut T out r answer := by
  intro hdue
  rw [Store.due, Store.waited, hdirty, hflag, hcurrent, hdt, hlc] at hdue
  obtain ⟨hdone, hfits, hmeans⟩ := h hdue
  refine ⟨hdone, ?_, ?_⟩
  · rw [hvalue, hdirty]
    exact hfits
  · rw [hvalue, hdirty]
    exact hmeans

theorem Store.Saved.flushLoop {answers : ℕ → DbAnswer} (xs : List ℕ) : ∀ {s : Store R} {nosaved : RecordPtr}
    {ys : List ℕ} {fuel : ℕ}, s.Saved T → s.DirtyListed → s.Lists nosaved xs ys → xs.length < fuel →
    (∀ r ∈ xs, s.due r → s.CarriedOut T out r (answers r)) →
    ∃ s', Store.flushLoop T out answers fuel s nosaved = .ok s' ∧ s'.Saved T ∧ s'.DirtyListed := by
  induction xs with
  | nil =>
    intro s nosaved ys fuel h hd hl hfuel _
    obtain ⟨n, rfl⟩ := exists_succ_of_lt hfuel
    have hlist : s.updateList = .sentinel := hl.chain
    refine ⟨{ s with updateList := nosaved }, ?_, ⟨h.rows, h.freed, h.unique⟩, hd⟩
    simp only [Store.flushLoop, hlist]
  | cons r xs ih =>
    intro s nosaved ys fuel h hd hl hfuel hc
    obtain ⟨n, rfl⟩ := exists_succ_of_lt hfuel
    have hlist : s.updateList = .record r := hl.chain.1
    obtain ⟨hl₁, hout, hr⟩ := hl.pop
    have h₁ : ({ s with updateList := s.updateNext r, updateNext := update s.updateNext r .null } :
        Store R).Saved T := ⟨h.rows, h.freed, h.unique⟩
    have hcr : ({ s with updateList := s.updateNext r, updateNext := update s.updateNext r .null } :
        Store R).due r → Store.CarriedOut T out _ r (answers r) :=
      Store.CarriedOut.congr (hc r (mem_cons_self ..)) rfl rfl rfl rfl rfl rfl
    obtain ⟨s₂, nosaved₂, hrec, h₂, hd₂⟩ := h₁.flushRecord hl₁ hr (fun q hqr hq hdq => by
      show update s.updateNext r .null q ≠ .null
      rw [update_of_ne hqr]
      exact hd q hq hdq) hcr
    obtain ⟨ys₂, hl₂⟩ := hl₁.flushRecord hout hr hrec
    obtain ⟨hvalue, hflag, hcurrent, hothers⟩ := Store.flushRecord_others hrec
    have hlen : xs.length < n := by
      rw [length_cons] at hfuel
      omega
    obtain ⟨s', hloop, h', hd'⟩ := ih h₂ hd₂ hl₂ hlen (fun q hq => by
      have hqr : q ≠ r := by
        rintro rfl
        exact hout (mem_append_left _ hq)
      obtain ⟨-, h1, h2, h3⟩ := hothers q hqr
      exact Store.CarriedOut.congr (hc q (mem_cons_of_mem _ hq)) (congrFun hvalue q) (congrFun hflag q) hcurrent
        h1 h2 h3)
    refine ⟨s', ?_, h', hd'⟩
    simp only [Store.flushLoop, hlist, Store.access_ok hr, ok_bind, hrec]
    exact hloop

theorem Store.Saved.step {a : StoreAct R} (h : s.Saved T) (hd : s.DirtyListed) (hl : s.Lists .sentinel xs [])
    (hcall : s.Callable T a) (hc : s.Condition T out a) :
    ∃ s', s.step T out a = .ok s' ∧ s'.Saved T ∧ s'.DirtyListed := by
  cases a with
  | time now => exact ⟨_, rfl, ⟨h.rows, h.freed, h.unique⟩, hd⟩
  | update r f v =>
    obtain ⟨hr, hf, hreq⟩ := hcall
    by_cases hsame : out.same (s.value r f.id) v = true
    · exact ⟨s, by simp only [Store.step, Store.dataUpdate, Store.access_ok hr, ok_bind, hsame, if_true], h, hd⟩
    · have hl₁ : (s.change r f v).Lists .sentinel xs [] := hl.congr rfl rfl rfl rfl
      refine ⟨(s.change r f v).addToUpdateList r, ?_, (h.change v hr hf hreq).add r, hl₁.add_listed hr ?_⟩
      · simp only [Store.step, Store.dataUpdate, Store.access_ok hr, ok_bind, hsame, if_false, Bool.false_eq_true]
      · intro q hqr hq hdq
        have hdq : update s.dirty r (s.dirty r ||| 1 <<< f.id) q ≠ 0 := hdq
        rw [update_of_ne hqr] at hdq
        exact hd q hq hdq
  | release r =>
    have hr : s.alive r = true := hcall
    have hl₁ : (s.setFlag r .release).Lists .sentinel xs [] := hl.congr rfl rfl rfl rfl
    refine ⟨(s.setFlag r .release).addToUpdateList r, ?_, (h.release hr hc).add r, hl₁.add_listed hr fun q _ => hd q⟩
    simp only [Store.step, Store.dataRelease, Store.access_ok hr, ok_bind]
  | delete r answer =>
    have hr : s.alive r = true := hcall
    obtain ⟨hfits, hmeans⟩ := hc
    have hfits' : ¬ sqlSize ≤ (T.deleteText out (s.value r)).length := by omega
    cases answer with
    | gone =>
      refine ⟨s, ?_, h, hd⟩
      simp only [Store.step, Store.dataDelete, Store.access_ok hr, ok_bind, databaseUpdate, Bool.false_eq_true, if_false]
    | refused =>
      refine ⟨s, ?_, h, hd⟩
      simp only [Store.step, Store.dataDelete, Store.access_ok hr, ok_bind, databaseUpdate, hfits', Bool.false_eq_true,
        if_false]
    | done =>
      have hl₁ : ((({ s with table := Table.delete s.table (T.keyOf (s.value r)) } : Store R).clean r).setFlag r
        .delete).Lists .sentinel xs [] := hl.congr rfl rfl rfl rfl
      refine ⟨_, ?_, (h.delete hr (hl.known r hr)).add r, hl₁.add_listed hr fun q hqr hq hdq => ?_⟩
      · simp only [Store.step, Store.dataDelete, Store.access_ok hr, ok_bind, databaseUpdate_done hfits, hmeans rfl,
          if_true]
      · have hdq : update s.dirty r 0 q ≠ 0 := hdq
        rw [update_of_ne hqr] at hdq
        exact hd q hq hdq
  | flush answers =>
    exact h.flushLoop xs hd hl hl.length_lt fun r hr => hc r (hl.live r (mem_append_left _ hr))

/-! ## Whole runs -/

def Store.RowHolds (T : RecordType) (table : Table R) (value : Row R) : Prop :=
  ∃ row, table (T.keyOf value) = some row ∧ ∀ f ∈ T.columns, row f.id = value f.id

/-- For every record type, and records that start with their rows, the update list is in order in every state reached. In every
run that meets the condition nothing faults, the dirty records are on the list, and the row of a record that was released and
freed holds its last values. -/
theorem writeBehind_loses_nothing (T : RecordType) (out : Outside R) {count : ℕ} {value : ℕ → Row R} {table : Table R}
    {now : ℕ} {acts : List (StoreAct R)} (hrows : ∀ r < count, Store.RowHolds T table (value r))
    (hkeys : ∀ r < count, ∀ q < count, T.keyOf (value r) = T.keyOf (value q) → r = q)
    (hcall : Along (Store.step T out) (Store.Callable T) (Store.start count value table now) acts) :
    (∀ s, run (Store.step T out) (Store.start count value table now) acts = .ok s → ∃ xs, s.IsUpdateList xs) ∧
    (Along (Store.step T out) (Store.Condition T out) (Store.start count value table now) acts →
      ∃ s xs, run (Store.step T out) (Store.start count value table now) acts = .ok s ∧ s.IsUpdateList xs ∧
        (∀ r, s.alive r = true → s.dirty r ≠ 0 → r ∈ xs) ∧
        ∀ r < s.count, s.alive r = false → s.dataFlag r = .release → Store.RowHolds T s.table (s.value r)) := by
  have hlists := Store.start_lists count value table now
  have hlist : ∀ s a s', (∃ xs, Store.Lists s .sentinel xs []) → s.Callable T a → s.step T out a = .ok s' →
      ∃ xs, s'.Lists .sentinel xs [] := by
    rintro s a s' ⟨xs, h⟩ ha hs
    exact h.step ha hs
  refine ⟨fun s hrun => ?_, fun hcond => ?_⟩
  · obtain ⟨xs, h⟩ := run_preserves hlist acts _ s ⟨[], hlists⟩ hcall hrun
    exact ⟨xs, h.isUpdateList⟩
  · have hstep : ∀ s a, ((∃ xs, Store.Lists s .sentinel xs []) ∧ s.Saved T ∧ s.DirtyListed) →
        (s.Callable T a ∧ s.Condition T out a) →
        ∃ s', s.step T out a = .ok s' ∧ (∃ xs, s'.Lists .sentinel xs []) ∧ s'.Saved T ∧ s'.DirtyListed := by
      rintro s a ⟨⟨xs, hl⟩, h, hd⟩ ⟨ha, hc⟩
      obtain ⟨s', hs, h', hd'⟩ := h.step hd hl ha hc
      exact ⟨s', hs, hl.step ha hs, h', hd'⟩
    have hstart : (Store.start count value table now).Saved T := by
      refine ⟨fun r hr _ => ?_, fun r _ _ _ => rfl, hkeys⟩
      obtain ⟨row, hrow, hsame⟩ := hrows r hr
      exact ⟨row, hrow, fun f hf _ => hsame f hf⟩
    obtain ⟨s, hrun, ⟨xs, hl⟩, h, hd⟩ := run_ok hstep acts _
      ⟨⟨[], hlists⟩, hstart, fun r _ hdirty => absurd rfl hdirty⟩ (hcall.and hcond)
    refine ⟨s, xs, hrun, hl.isUpdateList, fun r hr hdirty => ?_, fun r hr hdead hflag => ?_⟩
    · have hmem := hl.mem_iff.mpr (hd r hr hdirty)
      rwa [append_nil] at hmem
    · obtain ⟨row, hrow, hclean⟩ := h.rows r hr (by rw [hflag]; exact DataFlag.noConfusion)
      refine ⟨row, hrow, fun f hf => hclean f hf ?_⟩
      rw [h.freed r hr hdead hflag, zero_testBit]

def rewardFlag : RecordType where
  table := bytes "rewardflag"
  fields := [⟨bytes "pid", 1, .uint64, true⟩, ⟨bytes "id", 2, .uint32, true⟩, ⟨bytes "value", 3, .uint64, false⟩]
  sorted := by simp
  bits := by simp

def rewardFlagRow (value : ℤ) : Row UInt64 := fun i => if i = 1 then .int 5 else if i = 2 then .int 2 else .int value

def rewardFlagTable : Table UInt64 := fun key => if key = [.int 5, .int 2] then some (rewardFlagRow 0) else none

def rewardFlagOutside : Outside UInt64 where
  printF := fun _ => []
  eqF := fun x y => x == y
  query := fun t text =>
    if text = bytes "update `rewardflag` set `value` = 7 where pid = 5 and id = 2" then
      Table.update t [.int 5, .int 2] (fun row => update row 3 (.int 7))
    else t

def rewardFlagStart : Store UInt64 := Store.start 1 (fun _ => rewardFlagRow 0) rewardFlagTable 1000

def rewardFlagActs (answer : DbAnswer) : List (StoreAct UInt64) :=
  [.update 0 ⟨bytes "value", 3, .uint64, false⟩ (.int 7), .release 0, .flush fun _ => answer]

theorem rewardFlag_key : rewardFlag.keyOf (rewardFlagRow 0) = [.int 5, .int 2] := by decide

theorem rewardFlag_rowHolds : ∀ r < 1, Store.RowHolds rewardFlag rewardFlagTable ((fun _ => rewardFlagRow 0) r) :=
  fun _ _ => ⟨rewardFlagRow 0, if_pos rewardFlag_key, fun _ _ => rfl⟩

theorem rewardFlag_keys : ∀ r < 1, ∀ q < 1, rewardFlag.keyOf ((fun _ => rewardFlagRow 0) r) =
    rewardFlag.keyOf ((fun _ => rewardFlagRow 0) q) → r = q := by
  intro r hr q hq _
  omega

theorem rewardFlag_callable (answer : DbAnswer) : Along (Store.step rewardFlag rewardFlagOutside)
    (Store.Callable rewardFlag) rewardFlagStart (rewardFlagActs answer) := by
  refine Along.cons ⟨rfl, by decide, rfl⟩ rfl ?_
  refine Along.cons rfl rfl ?_
  exact ⟨trivial, fun _ _ => trivial⟩

theorem rewardFlag_set (row : Row UInt64) :
    rewardFlag.set (update (rewardFlagRow 0) 3 (.int 7)) 8 row = update row 3 (.int 7) := by
  funext i
  by_cases hi : i = 3
  · subst hi
    rw [update_self]
    exact if_pos (by decide)
  · have hbit : Nat.testBit 8 i = false := by
      show Nat.testBit (2 ^ 3) i = false
      exact testBit_two_pow_of_ne (Ne.symm hi)
    rw [update_of_ne hi, RecordType.set, hbit, Bool.and_false]
    rfl

theorem rewardFlag_query (t : Table UInt64) : rewardFlagOutside.query t
    (rewardFlag.saveTexts rewardFlagOutside (update (rewardFlagRow 0) 3 (.int 7)) 8).flatten =
    Table.update t [.int 5, .int 2] (rewardFlag.set (update (rewardFlagRow 0) 3 (.int 7)) 8) := by
  have htext : (rewardFlag.saveTexts rewardFlagOutside (update (rewardFlagRow 0) 3 (.int 7)) 8).flatten =
      bytes "update `rewardflag` set `value` = 7 where pid = 5 and id = 2" := by decide
  rw [htext, funext rewardFlag_set, rewardFlagOutside]
  simp only [if_true]

theorem rewardFlag_carriedOut : Along (Store.step rewardFlag rewardFlagOutside)
    (Store.Condition rewardFlag rewardFlagOutside) rewardFlagStart (rewardFlagActs .done) := by
  refine Along.cons trivial rfl ?_
  refine Along.cons (fun h => DataFlag.noConfusion h) rfl ?_
  refine ⟨fun r hr _ => ?_, fun _ _ => trivial⟩
  obtain rfl : r = 0 := lt_one_iff.mp (of_decide_eq_true hr)
  exact ⟨rfl, by decide, rewardFlag_query⟩

theorem writeBehind_loses_nothing_rewardFlag :
    ∃ s, run (Store.step rewardFlag rewardFlagOutside) rewardFlagStart (rewardFlagActs .done) = .ok s ∧
      s.alive 0 = false ∧ s.value 0 3 = .int 7 ∧ Store.RowHolds rewardFlag s.table (s.value 0) := by
  obtain ⟨s, xs, hrun, -, -, hfreed⟩ := (writeBehind_loses_nothing rewardFlag rewardFlagOutside rewardFlag_rowHolds
    rewardFlag_keys (rewardFlag_callable .done)).2 rewardFlag_carriedOut
  obtain rfl := Except.ok.inj hrun
  exact ⟨_, rfl, rfl, rfl, hfreed 0 (by decide) rfl rfl⟩

/-- The connection is gone when the released record is flushed: the record is freed, and its row keeps
the old value. -/
theorem writeBehind_loses_change : ¬ ∀ (T : RecordType) (out : Outside UInt64) (count : ℕ) (value : ℕ → Row UInt64)
    (table : Table UInt64) (now : ℕ) (acts : List (StoreAct UInt64)) (s : Store UInt64),
    (∀ r < count, Store.RowHolds T table (value r)) →
    (∀ r < count, ∀ q < count, T.keyOf (value r) = T.keyOf (value q) → r = q) →
    Along (Store.step T out) (Store.Callable T) (Store.start count value table now) acts →
    run (Store.step T out) (Store.start count value table now) acts = .ok s →
    ∃ xs, s.IsUpdateList xs ∧ (∀ r, s.alive r = true → s.dirty r ≠ 0 → r ∈ xs) ∧
      ∀ r < s.count, s.alive r = false → s.dataFlag r = .release → Store.RowHolds T s.table (s.value r) := by
  intro h
  obtain ⟨-, -, -, hfreed⟩ := h rewardFlag rewardFlagOutside 1 _ rewardFlagTable 1000 (rewardFlagActs .gone) _
    rewardFlag_rowHolds rewardFlag_keys (rewardFlag_callable .gone) rfl
  obtain ⟨row, hrow, hsame⟩ := hfreed 0 (by decide) rfl rfl
  have hrow : rewardFlagTable [.int 5, .int 2] = some row := hrow
  obtain rfl : rewardFlagRow 0 = row := some_unique (if_pos rfl) hrow
  have hvalue : rewardFlagRow 0 3 = .int 7 := hsame ⟨bytes "value", 3, .uint64, false⟩ (by decide)
  exact absurd hvalue (by decide)

end CServer.CodeGenerate
