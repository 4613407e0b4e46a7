import CServer.Framework.HashKeys

/-! # `gateway/account.c`: the accounts by name and by player id

An account is an address, which is not used again; 0 is null. The hash reads the names where the accounts keep them. Freed
memory keeps its contents here: no coherent state refers to any. What is read from and written to the database and the
user log is left out.
-/
namespace CServer.Gateway
open CServer.Lib CServer.Framework Function Option

/-! ## The code -/

structure Account where
  name : CString
  playerid : UInt64
  lastWorld : ℤ

/-- `accountHash` and `table` are `account_hash` and `g_account_table`. -/
structure Accounts where
  accountHash : Hash ℕ
  table : AgMap UInt64
  account : ℕ → Account
  alive : ℕ → Bool
  fresh : ℕ

def nameFuncs (account : ℕ → Account) : HashFuncs CString ℕ := stringFuncs fun acc => (account acc).name

/-- `strncpy(acc->name, name, sizeof(acc->name) - 1)` into a name of zeros. -/
def copyName (name : CString) : CString := ⟨name.val.take 127, fun h => name.property (List.mem_of_mem_take h)⟩

def moduleAccountLoad : Except Fault Accounts := do
  let account := fun _ => ⟨⟨[], List.not_mem_nil⟩, 0, 0⟩
  let accountHash ← hashCreate (nameFuncs account) 0
  .ok ⟨accountHash, agMapNew 0, account, fun _ => false, 1⟩

/-- `mem` and `ok` say whether `account_new` and `hash_resize` get their memory. -/
def accountNew (s : Accounts) (name : CString) (playerid : UInt64) (mem ok : Bool) : Except Fault (Accounts × ℕ) :=
  if mem = false then .ok (s, 0)
  else do
    let acc := s.fresh
    let account := update s.account acc ⟨copyName name, playerid, -1⟩
    let (accountHash, _) ← hashInsert (nameFuncs account) 0 s.accountHash acc ok
    let (table, tmp) ← agMapIpSet s.table playerid acc
    let alive := update s.alive acc true
    if tmp = 0 then .ok (⟨accountHash, table, account, alive, s.fresh + 1⟩, acc)
    else
      .ok
        ({ accountHash := accountHash
           table := table
           account := update account acc ⟨copyName name, playerid, (account tmp).lastWorld⟩
           alive := update alive tmp false
           fresh := s.fresh + 1 }, acc)

def accountGet (s : Accounts) (name : CString) : Except Fault ℕ := hashGet (nameFuncs s.account) 0 s.accountHash name

def accountGetByPid (s : Accounts) (pid : UInt64) : Except Fault ℕ := agMapIpGet s.table pid

/-- `updated` says whether the update of the database succeeds. -/
def accountChange (s : Accounts) (pid : UInt64) (newName : CString) (updated ok : Bool) : Except Fault (Accounts × ℤ) := do
  let acc ← accountGetByPid s pid
  if acc = 0 then .ok (s, -1)
  else if updated = false then .ok (s, -1)
  else do
    let oldName := (s.account acc).name
    let account := update s.account acc { s.account acc with name := copyName newName }
    let (accountHash, _) ← hashInsert (nameFuncs account) 0 s.accountHash acc ok
    let (accountHash, _) ← hashRemove (nameFuncs account) 0 accountHash oldName
    .ok ({ s with accountHash := accountHash, account := account }, 0)

inductive AccountCall
  | new (name : CString) (playerid : UInt64) (mem ok : Bool)
  | change (pid : UInt64) (newName : CString) (updated ok : Bool)
  | get (name : CString)
  | getByPid (pid : UInt64)

def accountStep (s : Accounts) : AccountCall → Except Fault Accounts
  | .new name playerid mem ok => do
    let (s, _) ← accountNew s name playerid mem ok
    .ok s
  | .change pid newName updated ok => do
    let (s, _) ← accountChange s pid newName updated ok
    .ok s
  | .get name => do
    let _ ← accountGet s name
    .ok s
  | .getByPid pid => do
    let _ ← accountGetByPid s pid
    .ok s

/-- The chains of the hash are sorted and hold the accounts of the table, and a lookup finds an account that is not freed
by its name, or its id, and misses none. -/
structure Accounts.Coherent (s : Accounts) : Prop where
  same : ∃ rows, s.accountHash.Sorted (nameFuncs s.account) rows ∧
    ∀ acc, (∃ e ∈ elements rows s.accountHash.bucketsSize, s.accountHash.data e = acc) ↔
      acc ≠ 0 ∧ ∃ pid, accountGetByPid s pid = .ok acc
  byName : ∀ name, ∃ acc, accountGet s name = .ok acc ∧ (acc ≠ 0 → s.alive acc = true ∧ (s.account acc).name = name) ∧
    (acc = 0 → ∀ pid b, accountGetByPid s pid = .ok b → b ≠ 0 → (s.account b).name ≠ name)
  byPid : ∀ pid, ∃ acc, accountGetByPid s pid = .ok acc ∧ (acc ≠ 0 → s.alive acc = true ∧ (s.account acc).playerid = pid)

/-- A name that is registered is not indexed, and databases are updated. -/
def AccountCall.Allowed (s : Accounts) : AccountCall → Prop
  | .new name _ _ _ => accountGet s (copyName name) = .ok 0
  | .change _ _ updated _ => updated = true
  | _ => True

instance (s : Accounts) : ∀ c : AccountCall, Decidable (c.Allowed s)
  | .new name _ _ _ => inferInstanceAs (Decidable (accountGet s (copyName name) = .ok 0))
  | .change _ _ updated _ => inferInstanceAs (Decidable (updated = true))
  | .get _ => .isTrue trivial
  | .getByPid _ => .isTrue trivial

/-! ## The condition -/

/-- The new name is another one, of the same bucket, and no account of the bucket has a name between the two. -/
def Accounts.InPlace (s : Accounts) (acc : ℕ) (name : CString) : Prop :=
  let bucket := fun name : CString => (defaultHashKey name).toNat % s.accountHash.bucketsSize
  let old := (s.account acc).name
  name ≠ old ∧ bucket name = bucket old ∧
    ∀ pid b, accountGetByPid s pid = .ok b → b ≠ 0 → b ≠ acc → bucket (s.account b).name = bucket old →
      (defaultCmpKey (s.account b).name old < 0 → defaultCmpKey (s.account b).name name < 0) ∧
        (defaultCmpKey old (s.account b).name < 0 → defaultCmpKey name (s.account b).name < 0)

def Accounts.Room (s : Accounts) (ok : Bool) : Prop :=
  s.accountHash.itemCount + 1 < 2 ^ 32 ∧
    (ok = true → s.accountHash.itemCount + 1 < s.accountHash.bucketsSize ∨ s.accountHash.bucketsSize < 2 ^ 31)

/-- An id that is registered has no account, and an account that is renamed stays in its place. -/
def AccountCall.Keeps (s : Accounts) : AccountCall → Prop
  | .new _ playerid mem ok => mem = true → accountGetByPid s playerid = .ok 0 ∧ s.Room ok
  | .change pid newName updated _ =>
    updated = true → ∀ acc, accountGetByPid s pid = .ok acc → acc ≠ 0 → s.InPlace acc (copyName newName)
  | _ => True

/-! ## The invariant -/

/-- The hash holds `f` and the table `g`, which lead to the same accounts. -/
structure Accounts.Ok (s : Accounts) (f : CString → Option ℕ) (g : UInt64 → ℕ) : Prop where
  hash : ∃ rows, s.accountHash.Holds (nameFuncs s.account) f rows
  table : ∃ rows es, s.table.Ok ipHash rows es ∧ s.table.Holds es g
  byName : ∀ name acc, f name = some acc → acc ≠ 0 ∧ (s.account acc).name = name ∧ g (s.account acc).playerid = acc
  byPid : ∀ pid, g pid ≠ 0 → (s.account (g pid)).playerid = pid ∧ f (s.account (g pid)).name = some (g pid)
  live : ∀ pid, g pid ≠ 0 → s.alive (g pid) = true ∧ g pid < s.fresh
  fresh : 0 < s.fresh

variable {s : Accounts} {f : CString → Option ℕ} {g : UInt64 → ℕ}

namespace Accounts.Ok

theorem get (h : s.Ok f g) (name : CString) : accountGet s name = .ok ((f name).getD 0) := by
  obtain ⟨rows, hh⟩ := h.hash
  exact hashGet_ok hh 0 name

theorem getByPid (h : s.Ok f g) (pid : UInt64) : accountGetByPid s pid = .ok (g pid) := by
  obtain ⟨rows, es, hok, hholds⟩ := h.table
  exact agMapGet_ok hok hholds pid

theorem of_name (h : s.Ok f g) {name : CString} {acc : ℕ} (hf : f name = some acc) :
    acc ≠ 0 ∧ (s.account acc).name = name ∧ g (s.account acc).playerid = acc ∧ s.alive acc = true ∧ acc < s.fresh := by
  obtain ⟨hne, hname, hg⟩ := h.byName name acc hf
  have hlive := h.live (s.account acc).playerid (by rw [hg]; exact hne)
  rw [hg] at hlive
  exact ⟨hne, hname, hg, hlive⟩

theorem coherent (h : s.Ok f g) : s.Coherent := by
  refine ⟨?_, fun name => ⟨_, h.get name, ?_, ?_⟩, fun pid => ⟨_, h.getByPid pid, fun hne => ?_⟩⟩
  · obtain ⟨rows, hh⟩ := h.hash
    refine ⟨rows, hh.sorted, fun acc => ?_⟩
    constructor
    · rintro ⟨e, he, rfl⟩
      obtain ⟨hne, -, hg, -⟩ := h.of_name (hh.present e he)
      exact ⟨hne, _, (h.getByPid _).trans (by rw [hg])⟩
    · rintro ⟨hne, pid, hpid⟩
      rw [h.getByPid] at hpid
      obtain rfl := Except.ok.inj hpid
      obtain ⟨e, he, -, hdata⟩ := (hh.entries _ _).mpr (h.byPid pid hne).2
      exact ⟨e, he, hdata⟩
  · cases hf : f name with
    | none => exact fun hne => absurd rfl hne
    | some acc =>
      intro _
      obtain ⟨-, hname, -, halive, -⟩ := h.of_name hf
      exact ⟨halive, hname⟩
  · intro hzero pid b hb hne hname
    rw [h.getByPid] at hb
    obtain rfl := Except.ok.inj hb
    have hf := (h.byPid pid hne).2
    rw [hname] at hf
    rw [hf] at hzero
    exact hne hzero
  · exact ⟨(h.live pid hne).1, (h.byPid pid hne).1⟩

theorem holds_congr {rows : ℕ → List ℕ} (h : s.Ok f g) (hh : s.accountHash.Holds (nameFuncs s.account) f rows)
    {account : ℕ → Account} (hname : ∀ acc < s.fresh, (account acc).name = (s.account acc).name) :
    s.accountHash.Holds (nameFuncs account) f rows :=
  hh.congr_funcs rfl rfl fun e he => hname _ (h.of_name (hh.present e he)).2.2.2.2

theorem accountNew (h : s.Ok f g) {name : CString} {playerid : UInt64} {ok : Bool} (hname : f (copyName name) = none)
    (hpid : g playerid = 0) (hroom : s.Room ok) :
    ∃ s', CServer.Gateway.accountNew s name playerid true ok = .ok (s', s.fresh) ∧
      s'.Ok (update f (copyName name) (some s.fresh)) (update g playerid s.fresh) := by
  obtain ⟨rows, hh⟩ := h.hash
  obtain ⟨trows, es, hok, hholds⟩ := h.table
  have hother : ∀ acc, acc < s.fresh →
      update s.account s.fresh ⟨copyName name, playerid, -1⟩ acc = s.account acc :=
    fun acc hlt => update_of_ne hlt.ne _ _
  have hself : update s.account s.fresh (⟨copyName name, playerid, -1⟩ : Account) s.fresh =
      ⟨copyName name, playerid, -1⟩ := update_self ..
  have hkey : (nameFuncs (update s.account s.fresh ⟨copyName name, playerid, -1⟩)).getKey s.fresh =
      copyName name := congrArg Account.name hself
  have hh₀ := h.holds_congr hh fun acc hlt => congrArg Account.name (hother acc hlt)
  obtain ⟨accountHash, rows', hinsert, hh', -⟩ := hashInsert_new hh₀ 0 (by rw [hkey]; exact hname) hroom.1 hroom.2
  obtain ⟨table, trows', es', hset, hok', hholds'⟩ := agMapSet_ok hok hholds playerid s.fresh
  rw [hkey] at hh'
  have hcode : CServer.Gateway.accountNew s name playerid true ok = .ok
      (⟨accountHash, table, update s.account s.fresh ⟨copyName name, playerid, -1⟩,
        update s.alive s.fresh true, s.fresh + 1⟩, s.fresh) := by
    rw [CServer.Gateway.accountNew]
    simp only [Bool.true_eq_false, if_false, hinsert, ok_bind, agMapIpSet, hset, hpid, if_true]
  refine ⟨_, hcode, ⟨⟨rows', hh'⟩, ⟨trows', es', hok', hholds'⟩, fun k acc hk => ?_, fun pid hne => ?_, fun pid hne => ?_,
    Nat.succ_pos _⟩⟩
  · by_cases hkn : k = copyName name
    · rw [hkn, update_self] at hk
      obtain rfl := some.inj hk
      simp only [hself]
      exact ⟨h.fresh.ne', hkn.symm, update_self ..⟩
    · rw [update_of_ne hkn] at hk
      obtain ⟨hne, hname', hg, -, hlt⟩ := h.of_name hk
      simp only [hother acc hlt]
      refine ⟨hne, hname', ?_⟩
      rw [update_of_ne, hg]
      rintro heq
      rw [heq, hpid] at hg
      exact hne hg.symm
  · by_cases hpp : pid = playerid
    · rw [hpp, update_self]
      simp only [hself]
      exact ⟨trivial, update_self ..⟩
    · rw [update_of_ne hpp] at hne ⊢
      simp only [hother _ (h.live pid hne).2]
      obtain ⟨hplayer, hf⟩ := h.byPid pid hne
      refine ⟨hplayer, ?_⟩
      rw [update_of_ne, hf]
      intro heq
      rw [heq, hname] at hf
      cases hf
  · by_cases hpp : pid = playerid
    · rw [hpp, update_self]
      exact ⟨update_self .., Nat.lt_succ_self _⟩
    · rw [update_of_ne hpp] at hne ⊢
      obtain ⟨halive, hlt⟩ := h.live pid hne
      exact ⟨(update_of_ne hlt.ne _ _).trans halive, hlt.trans (Nat.lt_succ_self _)⟩

theorem rekeyed {rows : ℕ → List ℕ} (h : s.Ok f g) (hh : s.accountHash.Holds (nameFuncs s.account) f rows) {pid : UInt64}
    (hne : g pid ≠ 0) {name : CString} (hplace : s.InPlace (g pid) name) :
    ∃ e, s.accountHash.data e = g pid ∧ s.accountHash.keyOf (nameFuncs s.account) e = (s.account (g pid)).name ∧
      s.accountHash.keyOf (nameFuncs (update s.account (g pid) { s.account (g pid) with name := name })) e = name ∧
      s.accountHash.Rekeyed (nameFuncs s.account)
        (nameFuncs (update s.account (g pid) { s.account (g pid) with name := name })) rows e := by
  obtain ⟨e, he, -, hdata⟩ := (hh.entries _ _).mpr (h.byPid pid hne).2
  obtain ⟨hnew, hbucket, hothers⟩ := hplace
  have hold : s.accountHash.keyOf (nameFuncs s.account) e = (s.account (g pid)).name := by
    rw [← hdata]
    rfl
  have hkey : s.accountHash.keyOf
      (nameFuncs (update s.account (g pid) { s.account (g pid) with name := name })) e = name := by
    change (update s.account (g pid) { s.account (g pid) with name := name } (s.accountHash.data e)).name = name
    rw [hdata, update_self]
  have hdiffer : ∀ a ∈ elements rows s.accountHash.bucketsSize, a ≠ e → s.accountHash.data a ≠ g pid := by
    intro a ha hae hsame
    refine hae (hh.sorted.once ha he ?_)
    change (s.account (s.accountHash.data a)).name = (s.account (s.accountHash.data e)).name
    rw [hsame, hdata]
  refine ⟨e, hdata, hold, hkey, ⟨rfl, rfl, he, fun a ha hae => ?_, ?_, ?_, fun a ha hae hsame => ?_⟩⟩
  · change (update s.account (g pid) { s.account (g pid) with name := name } (s.accountHash.data a)).name = _
    rw [update_of_ne (hdiffer a ha hae)]
    rfl
  · rw [hkey, hold]
    exact hnew
  · rw [hkey, hold]
    exact hbucket
  · obtain ⟨hnz, -, hg, -⟩ := h.of_name (hh.present a ha)
    rw [hkey, hold]
    rw [hold] at hsame
    exact hothers _ _ ((h.getByPid _).trans (by rw [hg])) hnz (hdiffer a ha hae) hsame

theorem accountChange (h : s.Ok f g) {pid : UInt64} (hne : g pid ≠ 0) {newName : CString} (ok : Bool)
    (hplace : s.InPlace (g pid) (copyName newName)) :
    ∃ s' f', CServer.Gateway.accountChange s pid newName true ok = .ok (s', 0) ∧ s'.Ok f' g := by
  obtain ⟨rows, hh⟩ := h.hash
  obtain ⟨e, hdata, hold, hkey, hr⟩ := h.rekeyed hh hne hplace
  have hinsert := hr.hashInsert hh 0 ok
  have hfree := hr.fresh hh
  have hh₁ := hh.rekey hr
  rw [hdata, hold, hkey] at hh₁
  rw [hdata] at hinsert
  rw [hkey] at hfree
  obtain ⟨accountHash, rows', hremove, hh'⟩ := hashRemove_ok hh₁ 0 (s.account (g pid)).name
  have hnew : copyName newName ≠ (s.account (g pid)).name := hplace.1
  have hself : update s.account (g pid) { s.account (g pid) with name := copyName newName } (g pid) =
      { s.account (g pid) with name := copyName newName } := update_self ..
  have hother : ∀ b, b ≠ g pid →
      update s.account (g pid) { s.account (g pid) with name := copyName newName } b = s.account b :=
    fun b hb => update_of_ne hb _ _
  have hcode : CServer.Gateway.accountChange s pid newName true ok = .ok
      ({ s with
        accountHash := accountHash
        account := update s.account (g pid) { s.account (g pid) with name := copyName newName } }, 0) := by
    rw [CServer.Gateway.accountChange, h.getByPid]
    simp only [ok_bind, hne, if_false, Bool.true_eq_false, hinsert, hremove]
  have hmine : f (s.account (g pid)).name = some (g pid) := (h.byPid pid hne).2
  refine ⟨_, _, hcode, ⟨⟨rows', hh'⟩, h.table, fun k acc hk => ?_, fun pid' hne' => ?_, h.live, h.fresh⟩⟩
  · by_cases hko : k = (s.account (g pid)).name
    · rw [hko, update_self] at hk
      cases hk
    · rw [update_of_ne hko] at hk
      by_cases hkn : k = copyName newName
      · rw [hkn, update_self] at hk
        obtain rfl := some.inj hk
        simp only [hself]
        exact ⟨hne, hkn.symm, by rw [(h.byPid pid hne).1]⟩
      · rw [update_of_ne hkn, update_of_ne hko] at hk
        obtain ⟨hnz, hname, hg, -⟩ := h.of_name hk
        have hacc : acc ≠ g pid := by
          rintro rfl
          exact hko hname.symm
        simp only [hother acc hacc]
        exact ⟨hnz, hname, hg⟩
  · obtain ⟨hplayer, hf⟩ := h.byPid pid' hne'
    by_cases hsame : g pid' = g pid
    · rw [hsame] at hplayer ⊢
      simp only [hself]
      refine ⟨hplayer, ?_⟩
      rw [update_of_ne hnew, update_self]
    · simp only [hother _ hsame]
      refine ⟨hplayer, ?_⟩
      rw [update_of_ne, update_of_ne, update_of_ne, hf]
      · intro heq
        rw [heq, hmine] at hf
        exact hsame (some.inj hf).symm
      · intro heq
        rw [heq, hfree] at hf
        cases hf
      · intro heq
        rw [heq, hmine] at hf
        exact hsame (some.inj hf).symm

end Accounts.Ok

/-! ## Runs -/

theorem moduleAccountLoad_ok {s₀ : Accounts} (hload : moduleAccountLoad = .ok s₀) : s₀.Ok (fun _ => none) fun _ => 0 := by
  obtain ⟨accountHash, hcreate, hs₀⟩ := bind_ok_iff.mp hload
  obtain rfl := Except.ok.inj hs₀
  exact ⟨⟨_, (hashCreate_holds hcreate).1⟩, ⟨_, _, agMapNew_ok 0, nofun, fun _ _ => rfl⟩, nofun,
    fun _ hne => absurd rfl hne, fun _ hne => absurd rfl hne, Nat.one_pos⟩

theorem accountStep_ok (s : Accounts) (c : AccountCall) (h : ∃ f g, s.Ok f g) (hc : c.Allowed s ∧ c.Keeps s) :
    ∃ s', accountStep s c = .ok s' ∧ ∃ f g, s'.Ok f g := by
  obtain ⟨f, g, h⟩ := h
  obtain ⟨hallowed, hkeeps⟩ := hc
  cases c with
  | new name playerid mem ok =>
    cases mem with
    | false => exact ⟨s, rfl, f, g, h⟩
    | true =>
      obtain ⟨hpid, hroom⟩ := hkeeps rfl
      rw [h.getByPid] at hpid
      have hname : f (copyName name) = none := by
        have hget := ok_unique (h.get _) hallowed
        by_contra hsome
        obtain ⟨acc, hacc⟩ := ne_none_iff_exists'.mp hsome
        rw [hacc] at hget
        exact (h.of_name hacc).1 hget
      obtain ⟨s', hcode, h'⟩ := h.accountNew hname (Except.ok.inj hpid) hroom
      exact ⟨s', by rw [accountStep, hcode, ok_bind], _, _, h'⟩
  | change pid newName updated ok =>
    obtain rfl : updated = true := hallowed
    by_cases hzero : g pid = 0
    · refine ⟨s, ?_, f, g, h⟩
      rw [accountStep, accountChange, h.getByPid]
      simp only [ok_bind, hzero, if_true]
    · obtain ⟨s', f', hcode, h'⟩ := h.accountChange hzero ok (hkeeps rfl _ (h.getByPid pid) hzero)
      exact ⟨s', by rw [accountStep, hcode, ok_bind], f', g, h'⟩
  | get name => exact ⟨s, by rw [accountStep, h.get, ok_bind], f, g, h⟩
  | getByPid pid => exact ⟨s, by rw [accountStep, h.getByPid, ok_bind], f, g, h⟩

/-- In every run of calls that keep the accounts in their places, no assertion fails and every state is coherent. -/
theorem accounts_coherent {s₀ : Accounts} (hload : moduleAccountLoad = .ok s₀) (calls : List AccountCall)
    (hallowed : Along accountStep AccountCall.Allowed s₀ calls) (hkeeps : Along accountStep AccountCall.Keeps s₀ calls) :
    (∃ s, run accountStep s₀ calls = .ok s) ∧ Throughout accountStep Accounts.Coherent s₀ calls := by
  have hstart : ∃ f g, s₀.Ok f g := ⟨_, _, moduleAccountLoad_ok hload⟩
  have hboth := hallowed.and hkeeps
  constructor
  · obtain ⟨s, hrun, -⟩ := run_ok accountStep_ok calls s₀ hstart hboth
    exact ⟨s, hrun⟩
  · refine run_throughout (P := fun s => ∃ f g, s.Ok f g) (fun s h => ?_) (fun s c s' h hc hs' => ?_) calls s₀ hstart hboth
    · obtain ⟨f, g, h⟩ := h
      exact h.coherent
    · obtain ⟨s₁, hs₁, h₁⟩ := accountStep_ok s c h hc
      obtain rfl := ok_unique hs₁ hs'
      exact h₁

theorem accounts_coherent_rename : ∃ s₀, moduleAccountLoad = .ok s₀ ∧
    Throughout accountStep Accounts.Coherent s₀ [.new ⟨[97], by decide⟩ 5 true true,
      .change 5 ⟨[101, 119], by decide⟩ true true, .get ⟨[101, 119], by decide⟩] := by
  obtain ⟨s₀, hload⟩ : ∃ s₀, moduleAccountLoad = .ok s₀ := ⟨_, rfl⟩
  have hempty : moduleAccountLoad.toOption.map (fun s => (s.accountHash.itemCount, s.accountHash.bucketsSize)) =
      some (0, 128) := by decide +kernel
  rw [hload] at hempty
  obtain ⟨hcount, hsize⟩ := Prod.mk.inj (some.inj hempty)
  have hroom : s₀.Room true := ⟨by rw [hcount]; decide, fun _ => .inl (by rw [hcount, hsize]; decide)⟩
  have h₀ := moduleAccountLoad_ok hload
  obtain ⟨s₁, hnew, h₁⟩ := @Accounts.Ok.accountNew _ _ _ h₀ ⟨[97], by decide⟩ 5 true rfl rfl hroom
  have hstep : accountStep s₀ (.new ⟨[97], by decide⟩ 5 true true) = .ok s₁ := by
    rw [accountStep, hnew, ok_bind]
  have hsize₁ : s₁.accountHash.bucketsSize = 128 := by
    have hrun : (moduleAccountLoad >>= fun s => accountStep s (.new ⟨[97], by decide⟩ 5 true true)).toOption.map
        (fun s => s.accountHash.bucketsSize) = some 128 := by decide +kernel
    rw [hload, ok_bind, hstep] at hrun
    exact some.inj hrun
  have hname : (s₁.account s₀.fresh).name = copyName ⟨[97], by decide⟩ := (h₁.of_name (update_self ..)).2.1
  have hplace : s₁.InPlace s₀.fresh (copyName ⟨[101, 119], by decide⟩) := by
    refine ⟨?_, ?_, fun pid b hb hne hother => ?_⟩
    · rw [hname]
      decide
    · simp only [hname, hsize₁]
      decide
    · rw [h₁.getByPid] at hb
      obtain rfl := Except.ok.inj hb
      by_cases hpid : pid = 5
      · rw [hpid, update_self] at hother
        exact absurd rfl hother
      · rw [update_of_ne hpid] at hne
        exact absurd rfl hne
  have hkeeps : AccountCall.Keeps s₁ (.change 5 ⟨[101, 119], by decide⟩ true true) := by
    intro _ acc hacc _
    rw [h₁.getByPid, update_self] at hacc
    obtain rfl := Except.ok.inj hacc
    exact hplace
  refine ⟨s₀, hload, (accounts_coherent hload _ ?_ ?_).2⟩
  · obtain rfl := Except.ok.inj hload
    decide +kernel
  · exact .cons (fun _ => ⟨h₀.getByPid 5, hroom⟩) hstep ⟨hkeeps, fun _ _ => ⟨trivial, fun _ _ => trivial⟩⟩

def Accounts.dangles (s : Accounts) (name : CString) : Bool :=
  match accountGet s name with
  | .ok acc => acc != 0 && !s.alive acc
  | .error _ => false

def Accounts.misses (s : Accounts) (pid : UInt64) : Bool :=
  match accountGetByPid s pid with
  | .ok acc => acc != 0 && decide (accountGet s (s.account acc).name = .ok 0)
  | .error _ => false

theorem Accounts.Coherent.not_dangles {name : CString} (hs : s.Coherent) : s.dangles name = false := by
  obtain ⟨acc, hget, hlive, -⟩ := hs.byName name
  rw [Accounts.dangles, hget]
  by_cases hzero : acc = 0
  · simp [hzero]
  · simp [(hlive hzero).1]

theorem Accounts.Coherent.not_misses {pid : UInt64} (hs : s.Coherent) : s.misses pid = false := by
  obtain ⟨acc, hget, -⟩ := hs.byPid pid
  obtain ⟨found, hfound, -, hnone⟩ := hs.byName (s.account acc).name
  rw [Accounts.misses, hget]
  by_cases hzero : acc = 0
  · simp [hzero]
  · have hne : found ≠ 0 := fun hz => hnone hz pid acc hget hzero rfl
    simp [hfound, hne]

/-- An id that is registered again leaves its old name to a freed account; an account renamed to its own name is lost by
name. -/
theorem accounts_incoherent : ∃ s₀, moduleAccountLoad = .ok s₀ ∧
    (Along accountStep AccountCall.Allowed s₀
        [.new ⟨[97], by decide⟩ 5 true true, .new ⟨[98], by decide⟩ 5 true true] ∧
      ¬ Throughout accountStep Accounts.Coherent s₀
        [.new ⟨[97], by decide⟩ 5 true true, .new ⟨[98], by decide⟩ 5 true true]) ∧
    (Along accountStep AccountCall.Allowed s₀
        [.new ⟨[97], by decide⟩ 5 true true, .change 5 ⟨[97], by decide⟩ true true] ∧
      ¬ Throughout accountStep Accounts.Coherent s₀
        [.new ⟨[97], by decide⟩ 5 true true, .change 5 ⟨[97], by decide⟩ true true]) := by
  refine ⟨_, rfl, ⟨?_, not_throughout (fun s => s.dangles ⟨[97], by decide⟩) ?_ ?_⟩,
    ⟨?_, not_throughout (fun s => s.misses 5) ?_ ?_⟩⟩
  · decide +kernel
  · decide +kernel
  · exact fun s hs hc => absurd (hs.symm.trans hc.not_dangles) (by decide)
  · decide +kernel
  · decide +kernel
  · exact fun s hs hc => absurd (hs.symm.trans hc.not_misses) (by decide)

end CServer.Gateway
