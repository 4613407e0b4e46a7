import CServer.Framework.Map
import CServer.Lib.DList

/-! # `gateway/authserver.c`: the requests to the authentication server

A request is kept in the list `g_rpc_data_list`, at its end, and in the table `g_rpc_data_table` under its serial number,
until the server answers it or `module_authserver_update` finds it too old at the front of the list. Nodes are addresses,
which are not used again; 0 is null. What a passed or failed request does to its connection is left out, but that it no
longer hears of it.
-/
namespace CServer.Gateway
open CServer.Lib CServer.Framework Function List Nat

/-! ## The code -/

def authServerRpcTimeout : ℤ := 5

/-- `RPC_DATA`; `conn` is `none` for `INVALID_ID`. -/
structure RpcData where
  sn : UInt32
  createTime : ℤ
  conn : Option ℕ

inductive RpcEnd
  | passed
  | failed
  | timeout
  deriving DecidableEq

structure RpcState where
  heap : DHeap
  list : Option ℕ
  table : AgMap UInt64
  data : ℕ → RpcData
  sn : UInt32
  ctx : ℕ → Option ℕ
  fresh : ℕ

def rpcNew : RpcState :=
  ⟨⟨fun _ => false, fun _ => none, fun _ => none⟩, none, agMapNew 0, fun _ => ⟨0, 0, none⟩, 0, fun _ => none, 1⟩

variable (s : RpcState)

/-- `authserver_auth`; `built` says that the request could be encoded. -/
def authserverAuth (now : ℤ) (conn : ℕ) (built : Bool) : Except Fault RpcState := do
  let sn := s.sn + 1
  if built = false then .ok { s with sn := sn }
  else do
    let rpc := s.fresh
    let heap := s.heap.alloc rpc
    let (table, old) ← agMapIpSet s.table sn.toUInt64 rpc
    let heap := if old ≠ 0 then heap.free old else heap
    let (heap, list) ← dlistInsertTail heap s.list rpc
    .ok
      { heap := heap
        list := list
        table := table
        data := update s.data rpc ⟨sn, now, some conn⟩
        sn := sn
        ctx := update s.ctx conn (some rpc)
        fresh := rpc + 1 }

def forget (ctx : ℕ → Option ℕ) : Option ℕ → ℕ → Option ℕ
  | none => ctx
  | some conn => update ctx conn none

def RpcState.depart (rpc : ℕ) : Except Fault RpcState := do
  let (heap, list) ← dlistRemove s.heap s.list rpc
  let (table, _) ← agMapIpSet s.table (s.data rpc).sn.toUInt64 0
  .ok { s with heap := heap.free rpc, list := list, table := table, ctx := forget s.ctx (s.data rpc).conn }

def updateLoop (now : ℤ) : ℕ → RpcState → Except Fault (RpcState × List (UInt32 × RpcEnd))
  | 0, _ => .error .diverges
  | fuel + 1, s =>
    match s.list with
    | none => .ok (s, [])
    | some node => do
      s.heap.access node
      if now - (s.data node).createTime ≥ authServerRpcTimeout then do
        let s' ← s.depart node
        let (s'', left) ← updateLoop now fuel s'
        .ok (s'', ((s.data node).sn, .timeout) :: left)
      else .ok (s, [])

def onRespond (sn : UInt32) (success : Bool) : Except Fault (RpcState × List (UInt32 × RpcEnd)) := do
  let rpc ← agMapIpGet s.table sn.toUInt64
  if rpc = 0 then .ok (s, [])
  else do
    s.heap.access rpc
    let s' ← s.depart rpc
    .ok (s', [((s.data rpc).sn, if success then .passed else .failed)])

def onClosedClient (conn : ℕ) : Except Fault RpcState :=
  match s.ctx conn with
  | none => .ok s
  | some rpc => do
    s.heap.access rpc
    .ok
      { s with
        data := update s.data rpc { s.data rpc with conn := none }
        ctx := update s.ctx conn none }

inductive AuthCall
  | auth (now : ℤ) (conn : ℕ) (built : Bool)
  | respond (sn : UInt32) (success : Bool)
  | update (now : ℤ)
  | closed (conn : ℕ)

/-- The output are the requests that leave. Each round of the loop frees one of the addresses given out so far. -/
def authStep : AuthCall → Except Fault (RpcState × List (UInt32 × RpcEnd))
  | .auth now conn built => do
    let s ← authserverAuth s now conn built
    .ok (s, [])
  | .respond sn success => onRespond s sn success
  | .update now => updateLoop now (s.fresh + 1) s
  | .closed conn => do
    let s ← onClosedClient s conn
    .ok (s, [])

/-! ## What the calls are for -/

structure Requests where
  made : List (UInt32 × ℤ)
  pending : List (UInt32 × ℤ)
  sn : UInt32

def requestsNew : Requests := ⟨[], [], 0⟩

/-- How a call ends a request that is pending, if it does: an answer under its number, or an update that finds it old. -/
def AuthCall.ends (c : AuthCall) (r : UInt32 × ℤ) : Option RpcEnd :=
  match c with
  | .respond sn success => if r.1 = sn then some (if success then .passed else .failed) else none
  | .update now => if now - r.2 ≥ authServerRpcTimeout then some .timeout else none
  | _ => none

/-- Every call ends the requests that it matches, and `auth` makes one. -/
def requestsStep (t : Requests) (c : AuthCall) : Requests × List (UInt32 × RpcEnd) :=
  let left := t.pending.filterMap fun r => (c.ends r).map fun e => (r.1, e)
  let pending := t.pending.filter fun r => (c.ends r).isNone
  match c with
  | .auth now _ true => (⟨t.made ++ [(t.sn + 1, now)], pending ++ [(t.sn + 1, now)], t.sn + 1⟩, left)
  | .auth _ _ false => (⟨t.made, pending, t.sn + 1⟩, left)
  | _ => (⟨t.made, pending, t.sn⟩, left)

def AuthCall.time : AuthCall → Option ℤ
  | .auth now _ _ => some now
  | .update now => some now
  | _ => none

def AuthCall.isAuth : AuthCall → Bool
  | .auth _ _ _ => true
  | _ => false

/-- The list holds these requests, each once and ordered by their times, and the table finds each of its nodes under its
number, and nothing else. -/
structure RpcState.Holds (s : RpcState) (pending : List (UInt32 × ℤ)) : Prop where
  nodes : ∃ nodes, DListed s.heap s.list nodes ∧ pending = nodes.map (fun a => ((s.data a).sn, (s.data a).createTime)) ∧
    ∀ sn : UInt32, ∃ a, agMapIpGet s.table sn.toUInt64 = .ok a ∧
      (a ≠ 0 → a ∈ nodes ∧ (s.data a).sn = sn) ∧ (a = 0 → sn ∉ pending.map Prod.fst)
  nodup : (pending.map Prod.fst).Nodup
  sorted : (pending.map Prod.snd).Pairwise (· ≤ ·)

/-! ## The invariant -/

def RpcState.request (a : ℕ) : UInt32 × ℤ := ((s.data a).sn, (s.data a).createTime)

structure RpcState.Ok (s : RpcState) (clock : ℤ) (nodes : List ℕ) (f : UInt64 → ℕ) : Prop where
  list : DListed s.heap s.list nodes
  table : ∃ rows es, s.table.Ok ipHash rows es ∧ s.table.Holds es f
  found : ∀ a ∈ nodes, f (s.data a).sn.toUInt64 = a
  absent : ∀ k, (∀ a ∈ nodes, (s.data a).sn.toUInt64 ≠ k) → f k = 0
  fresh : 0 < s.fresh
  live : ∀ a ∈ nodes, 0 < a ∧ a < s.fresh
  sn : ∀ a ∈ nodes, (s.data a).sn.toNat ≤ s.sn.toNat
  ctx : ∀ c a, s.ctx c = some a → a ∈ nodes ∧ (s.data a).conn = some c
  sorted : nodes.Pairwise fun a b => (s.data a).createTime ≤ (s.data b).createTime
  clock : ∀ a ∈ nodes, (s.data a).createTime ≤ clock

variable {s : RpcState} {now clock : ℤ} {nodes : List ℕ} {f : UInt64 → ℕ}

theorem rpcNew_ok (clock : ℤ) : rpcNew.Ok clock [] fun _ => 0 where
  list := ⟨dring_nil, rfl, fun _ _ => ⟨rfl, rfl⟩⟩
  table := ⟨_, _, agMapNew_ok 0, nofun, fun _ _ => rfl⟩
  found := nofun
  absent := fun _ _ => rfl
  fresh := Nat.one_pos
  live := nofun
  sn := nofun
  ctx := nofun
  sorted := .nil
  clock := nofun

namespace RpcState.Ok

theorem get (h : s.Ok clock nodes f) (sn : UInt32) : agMapIpGet s.table sn.toUInt64 = .ok (f sn.toUInt64) := by
  obtain ⟨rows, es, hok, hholds⟩ := h.table
  exact agMapGet_ok hok hholds _

theorem found_iff (h : s.Ok clock nodes f) (sn : UInt32) :
    (f sn.toUInt64 ≠ 0 → f sn.toUInt64 ∈ nodes ∧ (s.data (f sn.toUInt64)).sn = sn) ∧
      (f sn.toUInt64 = 0 → ∀ a ∈ nodes, (s.data a).sn ≠ sn) := by
  constructor
  · intro hne
    by_contra hno
    refine hne (h.absent _ fun a ha hsn => hno ?_)
    have hfound := h.found a ha
    rw [hsn] at hfound
    rw [hfound]
    exact ⟨ha, UInt32.toUInt64_inj.mp hsn⟩
  · rintro hzero a ha rfl
    rw [h.found a ha] at hzero
    exact (h.live a ha).1.ne' hzero

theorem sns_nodup (h : s.Ok clock nodes f) : (nodes.map fun a => (s.data a).sn).Nodup := by
  refine h.list.nodup.map_on fun a ha b hb hab => ?_
  rw [← h.found a ha, ← h.found b hb, hab]

theorem holds (h : s.Ok clock nodes f) : s.Holds (nodes.map s.request) where
  nodes := by
    refine ⟨nodes, h.list, rfl, fun sn => ⟨_, h.get sn, (h.found_iff sn).1, fun hzero hmem => ?_⟩⟩
    rw [map_map] at hmem
    obtain ⟨a, ha, hsn⟩ := mem_map.mp hmem
    exact (h.found_iff sn).2 hzero a ha hsn
  nodup := by
    rw [map_map]
    exact h.sns_nodup
  sorted := by
    rw [map_map, pairwise_map]
    exact h.sorted

theorem forget_ne (h : s.Ok clock nodes f) {a b c : ℕ} (hc : forget s.ctx (s.data a).conn c = some b) :
    s.ctx c = some b ∧ b ≠ a := by
  cases hconn : (s.data a).conn with
  | none =>
    rw [hconn] at hc
    refine ⟨hc, ?_⟩
    rintro rfl
    exact nomatch hconn.symm.trans (h.ctx c b hc).2
  | some conn =>
    rw [hconn, forget] at hc
    by_cases hcc : c = conn
    · rw [hcc, update_self] at hc
      exact nomatch hc
    · rw [update_of_ne hcc] at hc
      refine ⟨hc, ?_⟩
      rintro rfl
      exact hcc (some_unique (h.ctx c b hc).2 hconn)

theorem depart (h : s.Ok clock nodes f) {a : ℕ} (ha : a ∈ nodes) :
    ∃ s', s.depart a = .ok s' ∧ s'.Ok clock (nodes.erase a) (update f (s.data a).sn.toUInt64 0) ∧
      s'.data = s.data ∧ s'.sn = s.sn ∧ s'.fresh = s.fresh := by
  have halive := h.list.ring.alive a ha
  obtain ⟨heap, list, hremove, hlist, -⟩ := h.list.remove halive
  obtain ⟨rows, es, hok, hholds⟩ := h.table
  obtain ⟨table, rows', es', hset, hok', hholds'⟩ := agMapSet_ok hok hholds (s.data a).sn.toUInt64 0
  have hne : a ∉ nodes.erase a := h.list.nodup.not_mem_erase
  have hother : ∀ b ∈ nodes.erase a, (s.data b).sn.toUInt64 ≠ (s.data a).sn.toUInt64 := by
    intro b hb hsn
    have hfound := h.found b (mem_of_mem_erase hb)
    rw [hsn, h.found a ha] at hfound
    exact hne (hfound ▸ hb)
  have hcode : s.depart a =
      .ok { s with heap := heap.free a, list := list, table := table, ctx := forget s.ctx (s.data a).conn } := by
    rw [RpcState.depart, hremove]
    simp only [ok_bind, agMapIpSet, hset]
  refine ⟨_, hcode, ⟨hlist.free hne, ⟨rows', es', hok', hholds'⟩, ?_, ?_, h.fresh, ?_, ?_, ?_, ?_, ?_⟩, rfl, rfl, rfl⟩
  · intro b hb
    rw [update_of_ne (hother b hb)]
    exact h.found b (mem_of_mem_erase hb)
  · intro k hk
    by_cases hkey : k = (s.data a).sn.toUInt64
    · rw [hkey, update_self]
    · rw [update_of_ne hkey]
      refine h.absent k fun b hb hsn => ?_
      by_cases hba : b = a
      · exact hkey (hba ▸ hsn.symm)
      · exact hk b ((mem_erase_of_ne hba).mpr hb) hsn
  · exact fun b hb => h.live b (mem_of_mem_erase hb)
  · exact fun b hb => h.sn b (mem_of_mem_erase hb)
  · intro c b hc
    have hold : s.ctx c = some b ∧ b ≠ a := h.forget_ne hc
    obtain ⟨hb, hconn⟩ := h.ctx c b hold.1
    exact ⟨(mem_erase_of_ne hold.2).mpr hb, hconn⟩
  · exact h.sorted.sublist erase_sublist
  · exact fun b hb => h.clock b (mem_of_mem_erase hb)

theorem mono (h : s.Ok clock nodes f) (hle : clock ≤ now) : s.Ok now nodes f :=
  { h with clock := fun a ha => (h.clock a ha).trans hle }

/-- The loop frees the old requests from the front of the list, and stops at the first young one: the rest is young. -/
theorem updateLoop (now : ℤ) : ∀ {fuel : ℕ} {s : RpcState} {nodes : List ℕ} {f : UInt64 → ℕ}, s.Ok clock nodes f →
    nodes.length < fuel →
    ∃ s' f', CServer.Gateway.updateLoop now fuel s = .ok (s',
        nodes.filterMap fun a => ((AuthCall.update now).ends (s.request a)).map fun e => ((s.request a).1, e)) ∧
      s'.Ok clock (nodes.filter fun a => ((AuthCall.update now).ends (s.request a)).isNone) f' ∧
      s'.data = s.data ∧ s'.sn = s.sn := by
  intro fuel
  induction fuel with
  | zero => exact fun _ hlt => absurd hlt (Nat.not_lt_zero _)
  | succ fuel ih =>
    intro s nodes f h hlt
    cases nodes with
    | nil =>
      refine ⟨s, f, ?_, h, rfl, rfl⟩
      rw [CServer.Gateway.updateLoop, h.list.head]
      rfl
    | cons a nodes =>
      have halive := h.list.ring.alive a mem_cons_self
      obtain ⟨hsorted, -⟩ := pairwise_cons.mp h.sorted
      rw [CServer.Gateway.updateLoop, h.list.head]
      simp only [List.head?_cons, DHeap.access_ok halive, ok_bind]
      by_cases hold : now - (s.data a).createTime ≥ authServerRpcTimeout
      · obtain ⟨s₁, hs₁, h₁, hdata, hsn, -⟩ := h.depart mem_cons_self
        rw [erase_cons_head] at h₁
        obtain ⟨s', f', hloop, h', hdata', hsn'⟩ := ih h₁ (lt_of_succ_lt_succ hlt)
        have hrequest : s₁.request = s.request := by
          funext b
          rw [RpcState.request, RpcState.request, hdata]
        have hends : (AuthCall.update now).ends (s.request a) = some .timeout := if_pos hold
        rw [hrequest] at hloop h'
        refine ⟨s', f', ?_, ?_, hdata'.trans hdata, hsn'.trans hsn⟩
        · rw [if_pos hold, hs₁, filterMap_cons, hends]
          simp only [ok_bind, hloop]
          rfl
        · rw [filter_cons_of_neg (by rw [hends]; simp)]
          exact h'
      · have hyoung : ∀ b ∈ a :: nodes, (AuthCall.update now).ends (s.request b) = none := by
          intro b hb
          refine if_neg fun hb' => hold ?_
          rcases mem_cons.mp hb with rfl | hb
          · exact hb'
          · have hle := hsorted b hb
            change now - (s.data b).createTime ≥ _ at hb'
            omega
        refine ⟨s, f, ?_, ?_, rfl, rfl⟩
        · rw [if_neg hold, filterMap_eq_nil_iff.mpr fun b hb => by rw [hyoung b hb]; rfl]
        · rw [filter_eq_self.mpr fun b hb => by rw [hyoung b hb]; rfl]
          exact h

theorem respond_ends (h : s.Ok clock nodes f) {a : ℕ} (ha : a ∈ nodes) (success : Bool) {b : ℕ} (hb : b ∈ nodes) :
    (AuthCall.respond (s.data a).sn success).ends (s.request b) =
      if b = a then some (if success then .passed else .failed) else none := by
  have hiff : (s.data b).sn = (s.data a).sn ↔ b = a := by
    constructor
    · intro hsn
      rw [← h.found b hb, ← h.found a ha, hsn]
    · rintro rfl
      rfl
  simp only [AuthCall.ends, RpcState.request, hiff]

theorem onRespond (h : s.Ok clock nodes f) (sn : UInt32) (success : Bool) :
    ∃ s' f', CServer.Gateway.onRespond s sn success = .ok (s', nodes.filterMap fun a =>
        ((AuthCall.respond sn success).ends (s.request a)).map fun e => ((s.request a).1, e)) ∧
      s'.Ok clock (nodes.filter fun a => ((AuthCall.respond sn success).ends (s.request a)).isNone) f' ∧
      s'.data = s.data ∧ s'.sn = s.sn := by
  obtain ⟨hfound, hnone⟩ := h.found_iff sn
  rw [CServer.Gateway.onRespond, h.get sn]
  simp only [ok_bind]
  by_cases hzero : f sn.toUInt64 = 0
  · have hends : ∀ b ∈ nodes, (AuthCall.respond sn success).ends (s.request b) = none :=
      fun b hb => if_neg (hnone hzero b hb)
    refine ⟨s, f, ?_, ?_, rfl, rfl⟩
    · rw [if_pos hzero, filterMap_eq_nil_iff.mpr fun b hb => by rw [hends b hb]; rfl]
    · rw [filter_eq_self.mpr fun b hb => by rw [hends b hb]; rfl]
      exact h
  · obtain ⟨ha, hsn⟩ := hfound hzero
    generalize f sn.toUInt64 = a at ha hsn hzero
    subst hsn
    obtain ⟨s', hs', h', hdata, hsn, -⟩ := h.depart ha
    have hends := fun b hb => h.respond_ends ha success (b := b) hb
    refine ⟨s', update f (s.data a).sn.toUInt64 0, ?_, ?_, hdata, hsn⟩
    · rw [if_neg hzero, DHeap.access_ok (h.list.ring.alive a ha), hs']
      obtain ⟨ys, zs, rfl⟩ := append_of_mem ha
      have hout : ∀ b ∈ ys ++ zs, b ≠ a := by
        rintro b hb rfl
        exact (nodup_cons.mp (nodup_middle.mp h.list.nodup)).1 hb
      have hrest : ∀ l : List ℕ, (∀ b ∈ l, b ∈ ys ++ zs) → l.filterMap (fun b =>
          ((AuthCall.respond (s.data a).sn success).ends (s.request b)).map fun e => ((s.request b).1, e)) = [] := by
        refine fun l hl => filterMap_eq_nil_iff.mpr fun b hb => ?_
        have hmem : b ∈ ys ++ a :: zs := by
          rcases mem_append.mp (hl b hb) with hb | hb
          · exact mem_append_left _ hb
          · exact mem_append_right _ (mem_cons_of_mem _ hb)
        rw [hends b hmem, if_neg (hout b (hl b hb))]
        rfl
      rw [filterMap_append, filterMap_cons, hends a ha, if_pos rfl, hrest ys fun b hb => mem_append_left _ hb,
        hrest zs fun b hb => mem_append_right _ hb]
      rfl
    · have hfilter : nodes.filter (fun b => ((AuthCall.respond (s.data a).sn success).ends (s.request b)).isNone) =
          nodes.erase a := by
        rw [h.list.nodup.erase_eq_filter]
        refine filter_congr fun b hb => ?_
        rw [hends b hb]
        by_cases hba : b = a
        · rw [if_pos hba, hba, bne_self_eq_false]
          rfl
        · rw [if_neg hba, bne_iff_ne.mpr hba]
          rfl
      rw [hfilter]
      exact h'

theorem onClosedClient (h : s.Ok clock nodes f) (conn : ℕ) :
    ∃ s', CServer.Gateway.onClosedClient s conn = .ok s' ∧ s'.Ok clock nodes f ∧ s'.request = s.request ∧
      s'.sn = s.sn := by
  rw [CServer.Gateway.onClosedClient]
  cases hctx : s.ctx conn with
  | none => exact ⟨s, rfl, h, rfl, rfl⟩
  | some a =>
    obtain ⟨ha, hconn⟩ := h.ctx conn a hctx
    have hsn : ∀ b, (update s.data a { s.data a with conn := none } b).sn = (s.data b).sn := by
      intro b
      by_cases hb : b = a
      · rw [hb, update_self]
      · rw [update_of_ne hb]
    have htime : ∀ b, (update s.data a { s.data a with conn := none } b).createTime = (s.data b).createTime := by
      intro b
      by_cases hb : b = a
      · rw [hb, update_self]
      · rw [update_of_ne hb]
    simp only [DHeap.access_ok (h.list.ring.alive a ha), ok_bind]
    refine ⟨_, rfl, ⟨h.list, h.table, ?_, ?_, h.fresh, h.live, ?_, ?_, ?_, ?_⟩, ?_, rfl⟩
    · intro b hb
      simp only [hsn]
      exact h.found b hb
    · intro k hk
      simp only [hsn] at hk
      exact h.absent k hk
    · intro b hb
      simp only [hsn]
      exact h.sn b hb
    · intro c b hc
      have hforget : forget s.ctx (s.data a).conn c = some b := by
        rw [hconn]
        exact hc
      obtain ⟨hold, hba⟩ := h.forget_ne hforget
      obtain ⟨hb, hconn'⟩ := h.ctx c b hold
      refine ⟨hb, ?_⟩
      simp only [update_of_ne hba]
      exact hconn'
    · simp only [htime]
      exact h.sorted
    · intro b hb
      simp only [htime]
      exact h.clock b hb
    · funext b
      simp only [RpcState.request, hsn, htime]

theorem authserverAuth (h : s.Ok clock nodes f) (hnow : clock ≤ now) (hfew : s.sn.toNat + 1 < 2 ^ 32) (conn : ℕ) :
    ∃ s' f', CServer.Gateway.authserverAuth s now conn true = .ok s' ∧ s'.Ok now (nodes ++ [s.fresh]) f' ∧
      s'.sn = s.sn + 1 ∧ (∀ a ∈ nodes, s'.request a = s.request a) ∧ s'.request s.fresh = (s.sn + 1, now) := by
  have hnext : (s.sn + 1).toNat = s.sn.toNat + 1 := by
    rw [UInt32.toNat_add, UInt32.toNat_one]
    exact mod_eq_of_lt hfew
  have hout : s.fresh ∉ nodes := fun hin => lt_irrefl _ (h.live _ hin).2
  have hkey : ∀ a ∈ nodes, (s.data a).sn.toUInt64 ≠ (s.sn + 1).toUInt64 := by
    intro a ha hsn
    have hle := h.sn a ha
    rw [UInt32.toUInt64_inj.mp hsn, hnext] at hle
    omega
  have hzero : f (s.sn + 1).toUInt64 = 0 := h.absent _ hkey
  obtain ⟨rows, es, hok, hholds⟩ := h.table
  obtain ⟨table, rows', es', hset, hok', hholds'⟩ := agMapSet_ok hok hholds (s.sn + 1).toUInt64 s.fresh
  have halive : (s.heap.alloc s.fresh).alive s.fresh = true := update_self ..
  obtain ⟨heap, list, hinsert, hlist, -⟩ := (h.list.alloc hout).insertTail halive hout
  have hcode : CServer.Gateway.authserverAuth s now conn true = .ok
      { heap := heap
        list := list
        table := table
        data := update s.data s.fresh ⟨s.sn + 1, now, some conn⟩
        sn := s.sn + 1
        ctx := update s.ctx conn (some s.fresh)
        fresh := s.fresh + 1 } := by
    rw [CServer.Gateway.authserverAuth]
    simp only [Bool.true_eq_false, if_false, agMapIpSet, hset, hzero, ok_bind, ne_eq, not_true_eq_false, hinsert]
  have hdata : ∀ a ∈ nodes, update s.data s.fresh ⟨s.sn + 1, now, some conn⟩ a = s.data a := by
    rintro a ha
    refine update_of_ne ?_ _ _
    rintro rfl
    exact hout ha
  have hself : update s.data s.fresh (⟨s.sn + 1, now, some conn⟩ : RpcData) s.fresh = ⟨s.sn + 1, now, some conn⟩ :=
    update_self ..
  refine ⟨_, update f (s.sn + 1).toUInt64 s.fresh, hcode,
    ⟨hlist, ⟨rows', es', hok', hholds'⟩, ?_, ?_, succ_pos _, ?_, ?_, ?_, ?_, ?_⟩, rfl, ?_, ?_⟩
  · intro a ha
    rcases mem_append.mp ha with ha | ha
    · simp only [hdata a ha]
      rw [update_of_ne (hkey a ha)]
      exact h.found a ha
    · obtain rfl := mem_singleton.mp ha
      simp only [hself]
      exact update_self ..
  · intro k hk
    have hnew := hk s.fresh (by simp)
    simp only [hself] at hnew
    rw [update_of_ne hnew.symm]
    refine h.absent k fun a ha => ?_
    have hold := hk a (mem_append_left _ ha)
    simp only [hdata a ha] at hold
    exact hold
  · intro a ha
    rcases mem_append.mp ha with ha | ha
    · exact ⟨(h.live a ha).1, (h.live a ha).2.trans (lt_succ_self _)⟩
    · obtain rfl := mem_singleton.mp ha
      exact ⟨h.fresh, lt_succ_self _⟩
  · intro a ha
    simp only [hnext]
    rcases mem_append.mp ha with ha | ha
    · simp only [hdata a ha]
      exact (h.sn a ha).trans (le_succ _)
    · obtain rfl := mem_singleton.mp ha
      simp only [hself, hnext, le_refl]
  · intro c a hc
    change update s.ctx conn (some s.fresh) c = some a at hc
    by_cases hcc : c = conn
    · rw [hcc, update_self] at hc
      obtain rfl := Option.some.inj hc
      simp only [hself]
      exact ⟨by simp, by rw [hcc]⟩
    · rw [update_of_ne hcc] at hc
      obtain ⟨ha, hconn⟩ := h.ctx c a hc
      simp only [hdata a ha]
      exact ⟨mem_append_left _ ha, hconn⟩
  · refine pairwise_append.mpr ⟨h.sorted.imp_of_mem fun ha hb hle => ?_, pairwise_singleton _ _, ?_⟩
    · simp only [hdata _ ha, hdata _ hb]
      exact hle
    · intro a ha b hb
      obtain rfl := mem_singleton.mp hb
      simp only [hdata a ha, hself]
      exact (h.clock a ha).trans hnow
  · intro a ha
    rcases mem_append.mp ha with ha | ha
    · simp only [hdata a ha]
      exact (h.clock a ha).trans hnow
    · obtain rfl := mem_singleton.mp ha
      simp only [hself, le_refl]
  · intro a ha
    simp only [RpcState.request, hdata a ha]
  · simp only [RpcState.request, hself]

theorem skip (h : s.Ok clock nodes f) (hfew : s.sn.toNat + 1 < 2 ^ 32) : RpcState.Ok { s with sn := s.sn + 1 } clock nodes f := by
  have hnext : (s.sn + 1).toNat = s.sn.toNat + 1 := by
    rw [UInt32.toNat_add, UInt32.toNat_one]
    exact mod_eq_of_lt hfew
  refine { h with sn := fun a ha => ?_ }
  simp only [hnext]
  exact (h.sn a ha).trans (le_succ _)

theorem length_lt (h : s.Ok clock nodes f) : nodes.length < s.fresh + 1 := by
  have hsub : nodes ⊆ List.range s.fresh := fun a ha => mem_range.mpr (h.live a ha).2
  have hle := (h.list.nodup.subperm hsub).length_le
  rw [length_range] at hle
  exact lt_succ_of_le hle

end RpcState.Ok

/-! ## One call -/

structure Refines (clock : ℤ) (s : RpcState) (t : Requests) : Prop where
  nodes : ∃ nodes f, s.Ok clock nodes f ∧ t.pending = nodes.map s.request
  sn : t.sn = s.sn

theorem request_congr {s' : RpcState} (h : s'.data = s.data) : s'.request = s.request := by
  funext a
  rw [RpcState.request, RpcState.request, h]

theorem ends_none {c : AuthCall} (hc : ∀ r, c.ends r = none) (pending : List (UInt32 × ℤ)) :
    pending.filterMap (fun r => (c.ends r).map fun e => (r.1, e)) = [] ∧
      pending.filter (fun r => (c.ends r).isNone) = pending := by
  constructor
  · refine filterMap_eq_nil_iff.mpr fun r _ => ?_
    rw [hc r]
    rfl
  · refine filter_eq_self.mpr fun r _ => ?_
    rw [hc r]
    rfl

theorem Refines.auth {t : Requests} {conn : ℕ} {built : Bool} (h : Refines clock s t) (hnow : clock ≤ now)
    (hfew : t.sn.toNat + 1 < 2 ^ 32) :
    ∃ s', authStep s (.auth now conn built) = .ok (s', (requestsStep t (.auth now conn built)).2) ∧
      Refines now s' (requestsStep t (.auth now conn built)).1 := by
  obtain ⟨nodes, f, hok, hpending⟩ := h.nodes
  obtain ⟨hleft, hkept⟩ := ends_none (c := .auth now conn built) (fun _ => rfl) t.pending
  rw [h.sn] at hfew
  cases built with
  | false =>
    refine ⟨{ s with sn := s.sn + 1 }, ?_, ⟨nodes, f, (hok.skip hfew).mono hnow, ?_⟩, ?_⟩
    · simp only [requestsStep, hleft]
      rfl
    · simp only [requestsStep, hkept]
      exact hpending
    · simp only [requestsStep, h.sn]
  | true =>
    obtain ⟨s', f', hcode, hok', hsn, hold, hnew⟩ := hok.authserverAuth hnow hfew conn
    refine ⟨s', ?_, ⟨nodes ++ [s.fresh], f', hok', ?_⟩, ?_⟩
    · simp only [requestsStep, hleft, authStep, hcode, ok_bind]
    · simp only [requestsStep, hkept, h.sn]
      rw [map_append, map_congr_left hold, hpending, map_singleton, hnew]
    · simp only [requestsStep, h.sn, hsn]

theorem Refines.step {t : Requests} {c : AuthCall} (h : Refines clock s t) (htime : ∀ now ∈ c.time, clock ≤ now)
    (hfew : c.isAuth = true → t.sn.toNat + 1 < 2 ^ 32) :
    ∃ s', authStep s c = .ok (s', (requestsStep t c).2) ∧ Refines (c.time.getD clock) s' (requestsStep t c).1 := by
  obtain ⟨nodes, f, hok, hpending⟩ := h.nodes
  have hleft : ∀ c : AuthCall, t.pending.filterMap (fun r => (c.ends r).map fun e => (r.1, e)) =
      nodes.filterMap fun a => (c.ends (s.request a)).map fun e => ((s.request a).1, e) := by
    intro c
    rw [hpending, filterMap_map]
    rfl
  have hkept : ∀ c : AuthCall, t.pending.filter (fun r => (c.ends r).isNone) =
      (nodes.filter fun a => (c.ends (s.request a)).isNone).map s.request := by
    intro c
    rw [hpending, filter_map]
    rfl
  cases c with
  | auth now conn built => exact h.auth (htime now rfl) (hfew rfl)
  | respond sn success =>
    obtain ⟨s', f', hcode, hok', hdata, hsn⟩ := hok.onRespond sn success
    refine ⟨s', ?_, ⟨_, f', hok', ?_⟩, h.sn.trans hsn.symm⟩
    · rw [authStep, hcode, ← hleft]
      rfl
    · rw [request_congr hdata, ← hkept]
      rfl
  | update now =>
    obtain ⟨s', f', hcode, hok', hdata, hsn⟩ := (hok.mono (htime now rfl)).updateLoop now hok.length_lt
    refine ⟨s', ?_, ⟨_, f', hok', ?_⟩, h.sn.trans hsn.symm⟩
    · rw [authStep, hcode, ← hleft]
      rfl
    · rw [request_congr hdata, ← hkept]
      rfl
  | closed conn =>
    obtain ⟨s', hcode, hok', hrequest, hsn⟩ := hok.onClosedClient conn
    obtain ⟨hnone, hsame⟩ := ends_none (c := .closed conn) (fun _ => rfl) t.pending
    refine ⟨s', ?_, ⟨nodes, f, hok', ?_⟩, h.sn.trans hsn.symm⟩
    · simp only [authStep, hcode, ok_bind, requestsStep, hnone]
    · refine hsame.trans ?_
      rw [hpending, hrequest]

/-! ## Runs -/

/-- The requests that were made have different numbers, up to the last one. -/
structure Requests.Numbered (t : Requests) : Prop where
  nodup : (t.made.map Prod.fst).Nodup
  le : ∀ r ∈ t.made, r.1.toNat ≤ t.sn.toNat

theorem Requests.Numbered.step {t : Requests} {c : AuthCall} (h : t.Numbered)
    (hfew : c.isAuth = true → t.sn.toNat + 1 < 2 ^ 32) :
    (requestsStep t c).1.Numbered ∧ (requestsStep t c).1.sn.toNat = t.sn.toNat + if c.isAuth then 1 else 0 := by
  have hnext : c.isAuth = true → (t.sn + 1).toNat = t.sn.toNat + 1 := by
    intro hc
    rw [UInt32.toNat_add, UInt32.toNat_one]
    exact mod_eq_of_lt (hfew hc)
  cases c with
  | auth now conn built =>
    have hone := hnext rfl
    cases built with
    | false => exact ⟨⟨h.nodup, fun r hr => (h.le r hr).trans (by simp only [requestsStep, hone]; omega)⟩, hone⟩
    | true =>
      refine ⟨⟨?_, fun r hr => ?_⟩, hone⟩
      · simp only [requestsStep, map_append, map_singleton]
        refine h.nodup.append (nodup_singleton _) ?_
        rintro sn hsn hnew
        obtain rfl := mem_singleton.mp hnew
        obtain ⟨r, hr, hr1⟩ := mem_map.mp hsn
        have hle := h.le r hr
        rw [hr1, hone] at hle
        omega
      · simp only [requestsStep, hone]
        rcases mem_append.mp hr with hr | hr
        · exact (h.le r hr).trans (le_succ _)
        · obtain rfl := mem_singleton.mp hr
          exact hone.le
  | respond sn success => exact ⟨⟨h.nodup, h.le⟩, rfl⟩
  | update now => exact ⟨⟨h.nodup, h.le⟩, rfl⟩
  | closed conn => exact ⟨⟨h.nodup, h.le⟩, rfl⟩

theorem ends_perm (c : AuthCall) (pending : List (UInt32 × ℤ)) :
    ((pending.filterMap fun r => (c.ends r).map fun e => (r.1, e)).map Prod.fst ++
      (pending.filter fun r => (c.ends r).isNone).map Prod.fst).Perm (pending.map Prod.fst) := by
  induction pending with
  | nil => exact .nil
  | cons r pending ih =>
    cases hr : c.ends r with
    | none =>
      rw [filterMap_cons, filter_cons_of_pos (by rw [hr]; rfl), hr]
      exact perm_middle.trans (ih.cons r.1)
    | some e =>
      rw [filterMap_cons, filter_cons_of_neg (by rw [hr]; simp), hr]
      exact ih.cons r.1

theorem requestsStep_perm (t : Requests) (c : AuthCall) :
    (t.made.map Prod.fst ++ ((requestsStep t c).2.map Prod.fst ++ (requestsStep t c).1.pending.map Prod.fst)).Perm
      (t.pending.map Prod.fst ++ (requestsStep t c).1.made.map Prod.fst) := by
  have hperm := ends_perm c t.pending
  have hquiet : (t.made.map Prod.fst ++ ((t.pending.filterMap fun r => (c.ends r).map fun e => (r.1, e)).map Prod.fst ++
      (t.pending.filter fun r => (c.ends r).isNone).map Prod.fst)).Perm (t.pending.map Prod.fst ++ t.made.map Prod.fst) :=
    (hperm.append_left _).trans perm_append_comm
  cases c with
  | auth now conn built =>
    cases built with
    | false => exact hquiet
    | true =>
      simp only [requestsStep, map_append, map_singleton]
      rw [← append_assoc, ← append_assoc, ← append_assoc, append_assoc (t.made.map Prod.fst)]
      exact hquiet.append_right _
  | respond sn success => exact hquiet
  | update now => exact hquiet
  | closed conn => exact hquiet

theorem requests_accounted (calls : List AuthCall) : ∀ t : Requests,
    (t.made.map Prod.fst ++ ((specExec requestsStep t calls).2.flatten.map Prod.fst ++
      (specExec requestsStep t calls).1.pending.map Prod.fst)).Perm
        (t.pending.map Prod.fst ++ (specExec requestsStep t calls).1.made.map Prod.fst) := by
  induction calls with
  | nil => exact fun t => perm_append_comm
  | cons c calls ih =>
    intro t
    have hstep := requestsStep_perm t c
    have hrest := ih (requestsStep t c).1
    simp only [specExec, flatten_cons, map_append]
    rw [perm_iff_count] at hstep hrest ⊢
    intro sn
    have hone := hstep sn
    have hmany := hrest sn
    simp only [count_append] at hone hmany ⊢
    omega

theorem refines_run (calls : List AuthCall) : ∀ {clock : ℤ} {s : RpcState} {t : Requests}, Refines clock s t → t.Numbered →
    (∀ now ∈ calls.filterMap AuthCall.time, clock ≤ now) → (calls.filterMap AuthCall.time).Pairwise (· ≤ ·) →
    t.sn.toNat + calls.countP AuthCall.isAuth < 2 ^ 32 →
    ∃ s' clock', exec authStep s calls = .ok (s', (specExec requestsStep t calls).2) ∧
      Refines clock' s' (specExec requestsStep t calls).1 ∧ (specExec requestsStep t calls).1.Numbered := by
  induction calls with
  | nil => exact fun h hnum _ _ _ => ⟨_, _, rfl, h, hnum⟩
  | cons c calls ih =>
    intro clock s t h hnum hclock hsorted hfew
    rw [countP_cons] at hfew
    have hone : c.isAuth = true → t.sn.toNat + 1 < 2 ^ 32 := by
      intro hc
      rw [if_pos hc] at hfew
      omega
    have htime : ∀ now ∈ c.time, clock ≤ now := fun now hnow => hclock now (mem_filterMap.mpr ⟨c, mem_cons_self, hnow⟩)
    obtain ⟨s₁, hstep, h₁⟩ := h.step htime hone
    obtain ⟨hnum₁, hsn⟩ := hnum.step hone
    have hlater : (∀ now ∈ calls.filterMap AuthCall.time, c.time.getD clock ≤ now) ∧
        (calls.filterMap AuthCall.time).Pairwise (· ≤ ·) := by
      cases hc : c.time with
      | none =>
        rw [filterMap_cons, hc] at hclock hsorted
        exact ⟨hclock, hsorted⟩
      | some now =>
        rw [filterMap_cons, hc] at hsorted
        exact pairwise_cons.mp hsorted
    obtain ⟨s', clock', hrun, h', hnum'⟩ := ih h₁ hnum₁ hlater.1 hlater.2 (by rw [hsn]; omega)
    exact ⟨s', clock', exec_cons_ok hstep hrun, h', hnum'⟩

theorem RpcState.Ok.onRespond_none (h : s.Ok clock nodes f) {sn : UInt32} (hsn : sn ∉ nodes.map fun a => (s.data a).sn)
    (success : Bool) : CServer.Gateway.onRespond s sn success = .ok (s, []) := by
  have hzero : f sn.toUInt64 = 0 := by
    by_contra hne
    obtain ⟨ha, hfound⟩ := (h.found_iff sn).1 hne
    exact hsn (mem_map.mpr ⟨_, ha, hfound⟩)
  rw [CServer.Gateway.onRespond, h.get sn, ok_bind, if_pos hzero]

theorem exists_clock (times : List ℤ) (h : times.Pairwise (· ≤ ·)) : ∃ clock, ∀ now ∈ times, clock ≤ now := by
  cases times with
  | nil => exact ⟨0, nofun⟩
  | cons first times =>
    refine ⟨first, fun now hnow => ?_⟩
    rcases mem_cons.mp hnow with rfl | hnow
    · exact le_rfl
    · exact (pairwise_cons.mp h).1 now hnow

/-- In every run of fewer than `2 ^ 32` requests on a clock that does not go back, each call ends the requests that it matches;
list and table hold those pending; every request made has left once or is pending; and a reply under no pending number
changes nothing. -/
theorem authserver_pending (calls : List AuthCall) (hclock : (calls.filterMap AuthCall.time).Pairwise (· ≤ ·))
    (hfew : calls.countP AuthCall.isAuth < 2 ^ 32) :
    ∃ s, exec authStep rpcNew calls = .ok (s, (specExec requestsStep requestsNew calls).2) ∧
      s.Holds (specExec requestsStep requestsNew calls).1.pending ∧
      ((specExec requestsStep requestsNew calls).2.flatten.map Prod.fst ++
        (specExec requestsStep requestsNew calls).1.pending.map Prod.fst).Perm
          ((specExec requestsStep requestsNew calls).1.made.map Prod.fst) ∧
      ((specExec requestsStep requestsNew calls).1.made.map Prod.fst).Nodup ∧
      ∀ sn success, sn ∉ (specExec requestsStep requestsNew calls).1.pending.map Prod.fst →
        authStep s (.respond sn success) = .ok (s, []) := by
  obtain ⟨clock, hstart⟩ := exists_clock _ hclock
  have hnew : Refines clock rpcNew requestsNew := ⟨⟨[], _, rpcNew_ok clock, rfl⟩, rfl⟩
  have hnumbered : requestsNew.Numbered := ⟨nodup_nil, nofun⟩
  have hcount : requestsNew.sn.toNat + calls.countP AuthCall.isAuth < 2 ^ 32 := (Nat.zero_add _).trans_lt hfew
  obtain ⟨s, last, hrun, href, hmade⟩ := refines_run calls hnew hnumbered hstart hclock hcount
  obtain ⟨nodes, f, hok, hpending⟩ := href.nodes
  refine ⟨s, hrun, ?_, requests_accounted calls requestsNew, hmade.nodup, ?_⟩
  · rw [hpending]
    exact hok.holds
  · intro sn success hsn
    refine hok.onRespond_none ?_ success
    rw [hpending, map_map] at hsn
    exact hsn

theorem authserver_pending_three :
    ∃ s, exec authStep rpcNew [.auth 10 1 true, .auth 12 2 true, .auth 13 3 true, .respond 2 true, .closed 1, .update 15,
        .respond 1 false] = .ok (s, [[], [], [], [(2, .passed)], [], [(1, .timeout)], []]) ∧ s.Holds [(3, 13)] := by
  obtain ⟨s, hrun, hholds, -⟩ := authserver_pending [.auth 10 1 true, .auth 12 2 true, .auth 13 3 true, .respond 2 true,
    .closed 1, .update 15, .respond 1 false] (by decide) (by decide)
  exact ⟨s, hrun, hholds⟩

end CServer.Gateway
