import CServer.Modules.BuffSets

/-! # `world/modules/buff.c`: buffs over whole runs -/
namespace CServer.Modules
open CServer.Lib Function List
open Option hiding mem_map

/-! ## Calls -/

inductive BuffOp
  | add (pid id : ℕ) (value endTime : ℤ)
  | remove (pid id : ℕ) (value : ℤ)
  | list (pid : ℕ) (hpid : pid ≠ 0)

structure BuffCall where
  now : ℤ
  op : BuffOp

/-- A loop over `buff_next` that is given more steps than there will be nodes. -/
def BuffState.iterate (db : BuffRows) (now : ℤ) (s : BuffState) (pid : ℕ) : Except Fault (List ℕ × BuffState) :=
  BuffState.buffList db now pid (s.top + (db.rows pid).length + (db.rows 0).length + 1) s none

def buffStep (db : BuffRows) (players : ℕ → Bool) (s : BuffState) (c : BuffCall) : Except Fault BuffState :=
  match c.op with
  | .add pid id value endTime => s.buffAdd db players c.now pid id value endTime
  | .remove pid id value => s.buffRemove db players c.now pid id value
  | .list pid _ => do
    let (_, s) ← s.iterate db c.now pid
    return s

def buffRun (db : BuffRows) (players : ℕ → Bool) (s : BuffState) (calls : List BuffCall) : Except Fault BuffState :=
  calls.foldlM (buffStep db players) s

/-! ## What the calls are for -/

def globalLeft (b : Buff) (value : ℕ) : Option Buff := if b.value > value then some (b.less value) else none

def playerLeft (b : Buff) (value : ℤ) : Option Buff := if toInt b.value > value then some (b.less value) else none

def Ledger.step (players : ℕ → Bool) (L : Ledger) (c : BuffCall) : Ledger :=
  match c.op with
  | .add pid id value endTime =>
    if pid = 0 then L.write 0 id (some (globalBuff c.now (L 0 id) id (toUnsigned value) endTime))
    else if players pid then L.write pid id (some (playerBuff c.now (L pid id) pid id value endTime))
    else L
  | .remove pid id value =>
    if pid = 0 then L.write 0 id ((L 0 id).bind fun b => globalLeft b (toUnsigned value))
    else if players pid then L.write pid id ((L pid id).bind fun b => playerLeft b value)
    else L
  | .list _ _ => L

def Ledger.run (players : ℕ → Bool) (L : Ledger) (calls : List BuffCall) : Ledger := calls.foldl (Ledger.step players) L

/-- The list of each loaded set goes once through its nodes, the latest end first, no two of them of the same buff. -/
def ListsSorted (s : BuffState) : Prop := ∀ pid set, s.set pid = some set →
  ∃ xs, DRing s.heap xs ∧ set.list = xs.head? ∧ Falling (fun a => (s.buff a).endTime) xs ∧
    (xs.map fun a => (s.buff a).buffId).Nodup

structure Active (s : BuffState) (now : ℤ) (L : Ledger) (pid : ℕ) (nodes : List ℕ) : Prop where
  once : (nodes.map fun a => (s.buff a).buffId).Nodup
  all : ∀ b, b ∈ nodes.map s.buff ↔ ∃ id, L pid id = some b ∧ now ≤ b.endTime

/-- A loop over the buffs visits those of the player and then those of everyone. -/
def Enumerates (db : BuffRows) (s : BuffState) (now : ℤ) (L : Ledger) : Prop := ∀ pid, pid ≠ 0 →
  ∃ own everyone s', s.iterate db now pid = .ok (own ++ everyone, s') ∧ Active s' now L pid own ∧ Active s' now L 0 everyone

def BuffOp.loadsGlobal : BuffOp → Bool
  | add pid _ _ _ => decide (pid = 0)
  | remove _ _ _ => false
  | list _ _ => true

/-- No buff of everyone is removed before a call has loaded them; `loaded` says that one has. -/
def GlobalLoaded : Bool → List BuffCall → Prop
  | _, [] => True
  | loaded, c :: calls =>
    (∀ id value, c.op = .remove 0 id value → loaded = true) ∧ GlobalLoaded (loaded || c.op.loadsGlobal) calls

/-! ## Adding and removing -/

section Steps
variable {db : BuffRows} {players : ℕ → Bool} {s s' : BuffState} {now : ℤ} {L : Ledger} {pid id : ℕ} {set : BuffSet}
  {xs : List ℕ}

theorem Ledger.write_eq (L : Ledger) (pid id : ℕ) : L.write pid id (L pid id) = L := by
  rw [Ledger.write, update_eq_self, update_eq_self]

theorem BuffSound.held (h : BuffSound db s now L) (hset : s.set pid = some set) (id : ℕ) :
    (set.m id).map s.buff = L pid id := (h.loaded pid set hset).2 id

theorem BuffSound.node (h : BuffSound db s now L) (hset : s.set pid = some set) {a : ℕ} (hm : set.m id = some a) :
    (s.buff a).pid = pid ∧ (s.buff a).buffId = id := by
  obtain ⟨⟨xs, hsound⟩, -⟩ := h.loaded pid set hset
  exact hsound.node id a hm

/-- What is added to a set, `kept` saying of a buff whether it stays as it is and `made` what it becomes otherwise. -/
theorem add_ok (h : BuffSound db s now L) (pid id : ℕ) (kept : Buff → Prop) [DecidablePred kept] (made : Buff → Buff) (new : Buff)
    (hmade : ∀ b, (made b).pid = b.pid ∧ (made b).buffId = b.buffId) (hnew : new.pid = pid ∧ new.buffId = id) :
    ∃ s', (do
      let (s, set) ← s.load db now pid
      match set.m id with
      | some a => if kept (s.buff a) then .ok s else s.resort now pid set a (made (s.buff a))
      | none => s.addNew now pid set new) = .ok s' ∧
      BuffSound db s' now (L.write pid id (some (match L pid id with
        | none => new
        | some b => if kept b then b else made b))) ∧
      ∃ set', s'.set = update s.set pid (some set') := by
  obtain ⟨s₁, set, xs, hload, hsound, hset, -, -⟩ := load_ok h pid
  have hset' : s₁.set pid = some set := by
    rw [hset]
    exact update_self ..
  have hheld := hsound.held hset' id
  have hsets : ∀ set', update s₁.set pid (some set') = update s.set pid (some set') := fun set' => by
    rw [hset, update_idem]
  simp only [hload, ok_bind]
  cases hm : set.m id with
  | none =>
    rw [hm, map_none] at hheld
    obtain ⟨s₂, hadd, hsound₂, set₂, hset₂⟩ := addNew_ok (b := new) hsound hset' (hnew.2 ▸ hm) hnew.1
    refine ⟨s₂, hadd, ?_, set₂, hset₂.trans (hsets set₂)⟩
    rw [← hheld]
    rwa [hnew.2] at hsound₂
  | some a =>
    rw [hm, map_some] at hheld
    dsimp only
    by_cases hk : kept (s₁.buff a)
    · refine ⟨s₁, if_pos hk, ?_, set, hset⟩
      rw [← hheld]
      simp only [hk, if_true]
      rw [hheld, Ledger.write_eq]
      exact hsound
    · have hnode := hsound.node hset' hm
      have hmade' := hmade (s₁.buff a)
      obtain ⟨s₂, hresort, hsound₂, set₂, hset₂⟩ :=
        resort_ok hsound hset' hm (b := made (s₁.buff a)) ⟨hmade'.1.trans hnode.1, hmade'.2.trans hnode.2⟩
      refine ⟨s₂, ?_, ?_, set₂, hset₂.trans (hsets set₂)⟩
      · rw [if_neg hk]
        exact hresort
      · rw [← hheld]
        simp only [hk, if_false]
        exact hsound₂

theorem take_ok (h : BuffSound db s now L) (hset : s.set pid = some set) (id : ℕ) (more : Buff → Bool) (value : ℤ) :
    ∃ s', (match set.m id with
      | none => (.ok s : Except Fault BuffState)
      | some a => s.reduce now pid set a (more (s.buff a)) value) = .ok s' ∧
      BuffSound db s' now (L.write pid id ((L pid id).bind fun b => if more b then some (b.less value) else none)) ∧
      ∃ set', s'.set = update s.set pid (some set') := by
  have hheld := h.held hset id
  cases hm : set.m id with
  | none =>
    rw [hm, map_none] at hheld
    refine ⟨s, rfl, ?_, set, ?_⟩
    · rw [← hheld, bind_none, hheld, Ledger.write_eq]
      exact h
    · rw [← hset, update_eq_self]
  | some a =>
    rw [hm, map_some] at hheld
    obtain ⟨s', hreduce, hsound, set', hset'⟩ := reduce_ok h hset hm (more (s.buff a)) value
    refine ⟨s', hreduce, ?_, set', hset'⟩
    rw [← hheld, bind_some]
    exact hsound

theorem addGlobalBuff_ok (h : BuffSound db s now L) (id value : ℕ) (endTime : ℤ) :
    ∃ s', s.addGlobalBuff db now id value endTime = .ok s' ∧
      BuffSound db s' now (L.write 0 id (some (globalBuff now (L 0 id) id value endTime))) ∧
      ∃ set', s'.set = update s.set 0 (some set') :=
  add_ok h 0 id (fun b => globalKeeps b value endTime) (fun b => b.extend now value endTime) (newGlobal id endTime)
    (fun _ => ⟨rfl, rfl⟩) ⟨rfl, rfl⟩

theorem buffAdd_ok (h : BuffSound db s now L) (hpid : pid ≠ 0) (hplayer : players pid = true) (id : ℕ) (value endTime : ℤ) :
    ∃ s', s.buffAdd db players now pid id value endTime = .ok s' ∧
      BuffSound db s' now (L.write pid id (some (playerBuff now (L pid id) pid id value endTime))) ∧
      ∃ set', s'.set = update s.set pid (some set') := by
  rw [BuffState.buffAdd, if_pos hpid, if_pos hplayer]
  exact add_ok h pid id (fun b => playerKeeps b value endTime) (fun b => b.extend now value endTime)
    (newPlayer pid id value endTime) (fun _ => ⟨rfl, rfl⟩) ⟨rfl, rfl⟩

theorem removeGlobalBuff_ok (h : BuffSound db s now L) (hset : s.set 0 = some set) (id value : ℕ) :
    ∃ s', s.removeGlobalBuff now id value = .ok s' ∧
      BuffSound db s' now (L.write 0 id ((L 0 id).bind fun b => globalLeft b value)) ∧
      ∃ set', s'.set = update s.set 0 (some set') := by
  rw [BuffState.removeGlobalBuff, hset]
  have htake := take_ok h hset id (fun b => decide (b.value > value)) value
  simp only [decide_eq_true_eq] at htake
  exact htake

theorem buffRemove_ok (h : BuffSound db s now L) (hpid : pid ≠ 0) (hplayer : players pid = true) (id : ℕ) (value : ℤ) :
    ∃ s', s.buffRemove db players now pid id value = .ok s' ∧
      BuffSound db s' now (L.write pid id ((L pid id).bind fun b => playerLeft b value)) ∧
      ∃ set', s'.set = update s.set pid (some set') := by
  obtain ⟨s₁, set₁, xs, hload, hsound, hset, -, -⟩ := load_ok h pid
  have hset' : s₁.set pid = some set₁ := by
    rw [hset]
    exact update_self ..
  have htake := take_ok hsound hset' id (fun b => decide (toInt b.value > value)) value
  simp only [decide_eq_true_eq] at htake
  obtain ⟨s₂, htake, hsound₂, set₂, hset₂⟩ := htake
  refine ⟨s₂, ?_, hsound₂, set₂, ?_⟩
  · rw [BuffState.buffRemove, if_pos hpid, if_pos hplayer, hload]
    exact htake
  · rw [hset₂, hset, update_idem]

end Steps

/-! ## Looping over the buffs -/

section Loops
variable {db : BuffRows} {s s' : BuffState} {now : ℤ} {L : Ledger} {pid : ℕ} {set : BuffSet} {xs ys zs : List ℕ}

def BuffState.activeOf (s : BuffState) (now : ℤ) (xs : List ℕ) : List ℕ :=
  xs.takeWhile fun a => decide (now ≤ (s.buff a).endTime)

theorem mem_activeOf (hs : Falling (fun a => (s.buff a).endTime) xs) (a : ℕ) :
    a ∈ s.activeOf now xs ↔ a ∈ xs ∧ now ≤ (s.buff a).endTime := by
  induction xs with
  | nil => simp [BuffState.activeOf]
  | cons x xs ih =>
    obtain ⟨hx, hxs⟩ := pairwise_cons.mp hs
    have hih : a ∈ xs.takeWhile (fun a => decide (now ≤ (s.buff a).endTime)) ↔ a ∈ xs ∧ now ≤ (s.buff a).endTime := ih hxs
    rw [BuffState.activeOf, takeWhile_cons]
    by_cases hact : now ≤ (s.buff x).endTime
    · simp only [hact, decide_true, if_true, mem_cons, hih]
      constructor
      · rintro (rfl | ha)
        · exact ⟨.inl rfl, hact⟩
        · exact ⟨.inr ha.1, ha.2⟩
      · rintro ⟨rfl | ha, hnow⟩
        · exact .inl rfl
        · exact .inr ⟨ha, hnow⟩
    · -- what comes behind an expired buff has expired
      simp only [hact, decide_false, Bool.false_eq_true, if_false, not_mem_nil, false_iff, not_and]
      intro ha hnow
      obtain rfl | ha := mem_cons.mp ha
      · exact hact hnow
      · have : (s.buff a).endTime ≤ (s.buff x).endTime := hx a ha
        omega

theorem SetSound.ids_nodup (h : SetSound s now pid set xs) : (xs.map fun a => (s.buff a).buffId).Nodup := by
  refine (nodup_map_iff_inj_on h.ring.nodup).mpr fun a ha b hb hab => ?_
  have h1 := h.listed a ha
  rw [hab, h.listed b hb] at h1
  exact (some.inj h1).symm

theorem SetSound.active (h : SetSound s now pid set xs) (hmap : ∀ id, (set.m id).map s.buff = L pid id) :
    Active s now L pid (s.activeOf now xs) := by
  refine ⟨?_, fun b => ?_⟩
  · exact h.ids_nodup.sublist ((takeWhile_sublist _).map _)
  · rw [mem_map]
    constructor
    · rintro ⟨a, ha, rfl⟩
      obtain ⟨hax, hnow⟩ := (mem_activeOf h.falling a).mp ha
      refine ⟨(s.buff a).buffId, ?_, hnow⟩
      rw [← hmap, h.listed a hax, map_some]
    · rintro ⟨id, hid, hnow⟩
      rw [← hmap] at hid
      obtain ⟨a, hm, rfl⟩ := map_eq_some_iff.mp hid
      refine ⟨a, (mem_activeOf h.falling a).mpr ⟨?_, hnow⟩, rfl⟩
      by_contra hax
      have := (h.unlisted id a hm hax).2.2
      omega

theorem Active.framed {nodes : List ℕ} (h : Active s now L pid nodes) (hb : ∀ a ∈ nodes, s'.buff a = s.buff a) :
    Active s' now L pid nodes := by
  have hids : (nodes.map fun a => (s'.buff a).buffId) = nodes.map fun a => (s.buff a).buffId :=
    map_congr_left fun a ha => by rw [hb a ha]
  have hbuffs : nodes.map s'.buff = nodes.map s.buff := map_congr_left hb
  exact ⟨hids ▸ h.once, fun b => hbuffs ▸ h.all b⟩

theorem load_loaded (hset : s.set pid = some set) : s.load db now pid = .ok (s, set) := by
  rw [BuffState.load, hset]

theorem dlistNext_cursor {h : DHeap} (hr : DRing h (ys ++ zs)) :
    dlistNext h (ys ++ zs).head? ys.getLast? = .ok zs.head? := by
  cases hlast : ys.getLast? with
  | none =>
    obtain rfl := List.getLast?_eq_none_iff.mp hlast
    exact dlistNext_start _
  | some c =>
    obtain ⟨ys, rfl⟩ := List.getLast?_eq_some_iff.mp hlast
    have hassoc : ys ++ [c] ++ zs = ys ++ c :: zs := by simp
    rw [hassoc] at hr ⊢
    exact dlistNext_after hr

theorem globalBuffNext_ok (h : SetSound s now 0 set (ys ++ zs)) (hset : s.set 0 = some set) :
    s.globalBuffNext db now ys.getLast? = .ok ((s.activeOf now zs).head?, s) := by
  have hnext := dlistNext_cursor h.ring
  rw [BuffState.globalBuffNext]
  simp only [load_loaded hset, ok_bind, h.head, hnext]
  cases zs with
  | nil => rfl
  | cons z zs =>
    simp only [List.head?_cons, BuffState.activeOf, takeWhile_cons]
    by_cases hact : now ≤ (s.buff z).endTime
    · have hexp : ¬ now > (s.buff z).endTime := by omega
      simp only [hexp, if_false, hact, decide_true, if_true, pure_eq_ok, List.head?_cons]
    · have hexp : now > (s.buff z).endTime := by omega
      simp only [hexp, if_true, hact, decide_false, Bool.false_eq_true, if_false, List.head?_nil]

theorem activeOf_cons (z : ℕ) : s.activeOf now (z :: zs) = if now ≤ (s.buff z).endTime then z :: s.activeOf now zs else [] := by
  rw [BuffState.activeOf, takeWhile_cons]
  by_cases hact : now ≤ (s.buff z).endTime
  · simp only [hact, decide_true, if_true, BuffState.activeOf]
  · simp only [hact, decide_false, Bool.false_eq_true, if_false]

theorem buffList_global {fuel : ℕ} (h : SetSound s now 0 set (ys ++ zs)) (hset : s.set 0 = some set) (hys : ys ≠ [])
    (hfuel : zs.length < fuel) :
    BuffState.buffList db now pid fuel s ys.getLast? = .ok (s.activeOf now zs, s) := by
  -- the cursor is a buff of everyone
  have hcursor : ∀ ys zs, SetSound s now 0 set (ys ++ zs) → ys ≠ [] →
      s.buffNext db now pid ys.getLast? = .ok ((s.activeOf now zs).head?, s) := by
    intro ys zs h hys
    have hany : (ys.getLast?.any fun a => (s.buff a).pid = 0) = true := by
      rw [List.getLast?_eq_some_getLast hys, any_some, decide_eq_true_eq]
      have hmem : ys.getLast hys ∈ ys ++ zs := mem_append_left _ (getLast_mem hys)
      exact (h.node _ _ (h.listed _ hmem)).1
    rw [BuffState.buffNext, if_pos hany]
    exact globalBuffNext_ok h hset
  induction zs generalizing ys fuel with
  | nil =>
    obtain ⟨fuel, rfl⟩ := exists_succ_of_lt hfuel
    rw [BuffState.buffList, hcursor ys [] h hys]
    rfl
  | cons z zs ih =>
    obtain ⟨fuel, rfl⟩ := exists_succ_of_lt hfuel
    rw [BuffState.buffList, hcursor ys (z :: zs) h hys, activeOf_cons]
    by_cases hact : now ≤ (s.buff z).endTime
    · have hassoc : ys ++ z :: zs = ys ++ [z] ++ zs := by simp
      rw [hassoc] at h
      have hrest := ih h (by simp) (by simp only [length_cons] at hfuel; omega : zs.length < fuel)
      rw [List.getLast?_concat] at hrest
      simp only [hact, if_true, List.head?_cons, ok_bind, hrest, pure_eq_ok]
    · simp only [hact, if_false, List.head?_nil, ok_bind]

theorem SetSound.lengths {q : ℕ} {set' : BuffSet} (h : SetSound s now pid set xs) (h' : SetSound s now q set' ys)
    (hfresh : Fresh s) (hne : pid ≠ q) : xs.length + ys.length ≤ s.top := by
  have hnodup : (xs ++ ys).Nodup := by
    refine nodup_append.mpr ⟨h.ring.nodup, h'.ring.nodup, fun a ha b hb hab => ?_⟩
    subst hab
    exact hne ((h.node _ _ (h.listed a ha)).1.symm.trans (h'.node _ _ (h'.listed a hb)).1)
  have hsub : xs ++ ys ⊆ List.range s.top := by
    intro a ha
    rw [mem_range]
    obtain ha | ha := mem_append.mp ha
    · exact hfresh a (h.ring.alive a ha)
    · exact hfresh a (h'.ring.alive a ha)
  have hle := (hnodup.subperm hsub).length_le
  rwa [length_append, length_range] at hle

theorem globalBuffNext_loaded {s₁ : BuffState} {buff : Option ℕ} (hload : s.load db now 0 = .ok (s₁, set))
    (hset : s₁.set 0 = some set) : s.globalBuffNext db now buff = s₁.globalBuffNext db now buff := by
  rw [BuffState.globalBuffNext, BuffState.globalBuffNext, hload, load_loaded hset]

structure Finished (db : BuffRows) (s : BuffState) (now : ℤ) (L : Ledger) (everyone : List ℕ) (s' : BuffState) : Prop where
  sound : BuffSound db s' now L
  active : Active s' now L 0 everyone
  set : ∃ set', s'.set = update s.set 0 (some set')
  framed : Framed s s' 0

theorem buffList_turn (h : BuffSound db s now L) {ite : Option ℕ} {fuel : ℕ} (hs : SetSound s now pid set xs) (hpid : pid ≠ 0)
    (hturn : s.buffNext db now pid ite = s.globalBuffNext db now none)
    (hfuel : s.top + (db.rows 0).length < fuel + xs.length) :
    ∃ everyone s', BuffState.buffList db now pid fuel s ite = .ok (everyone, s') ∧ Finished db s now L everyone s' := by
  obtain ⟨s₁, set₀, gs, hload, hsound, hset, hgs, hframed, htop⟩ := load_ok h 0
  have hset₀ : s₁.set 0 = some set₀ := by
    rw [hset]
    exact update_self ..
  have hlen := (hs.framed hframed hpid).lengths hgs hsound.fresh hpid
  have hnext : s.buffNext db now pid ite = .ok ((s₁.activeOf now gs).head?, s₁) := by
    rw [hturn, globalBuffNext_loaded hload hset₀]
    exact @globalBuffNext_ok db s₁ now set₀ [] gs hgs hset₀
  have hfinished : Finished db s now L (s₁.activeOf now gs) s₁ :=
    ⟨hsound, hgs.active (hsound.held hset₀), ⟨set₀, hset⟩, hframed⟩
  obtain ⟨fuel, rfl⟩ : ∃ k, fuel = k + 1 := ⟨fuel - 1, by omega⟩
  refine ⟨_, s₁, ?_, hfinished⟩
  rw [BuffState.buffList, hnext]
  cases gs with
  | nil => rfl
  | cons g gs =>
    rw [activeOf_cons]
    by_cases hact : now ≤ (s₁.buff g).endTime
    · have hrest := @buffList_global db s₁ now pid set₀ [g] gs fuel hgs hset₀ (by simp)
        (by simp only [length_cons] at hlen; omega)
      simp only [hact, if_true, List.head?_cons, ok_bind]
      rw [show (some g : Option ℕ) = [g].getLast? from rfl, hrest]
      rfl
    · simp only [hact, if_false, List.head?_nil, ok_bind]

theorem buffNext_own (db : BuffRows) (hset : s.set pid = some set) (hs : SetSound s now pid set (ys ++ zs)) (hpid : pid ≠ 0) :
    s.buffNext db now pid ys.getLast? = match zs.head? with
      | none => s.globalBuffNext db now none
      | some it => if now > (s.buff it).endTime then s.globalBuffNext db now none else .ok (zs.head?, s) := by
  -- the cursor is null or a buff of the player
  have hown : (ys.getLast?.any fun a => (s.buff a).pid = 0) = false := by
    cases hlast : ys.getLast? with
    | none => rfl
    | some a =>
      have hmem : a ∈ ys ++ zs := mem_append_left _ (List.mem_of_getLast? hlast)
      rw [any_some, decide_eq_false_iff_not, (hs.node _ _ (hs.listed a hmem)).1]
      exact hpid
  have hnext := dlistNext_cursor hs.ring
  rw [← hs.head] at hnext
  rw [BuffState.buffNext, if_neg (by rw [hown]; simp)]
  simp only [load_loaded hset, ok_bind, hnext]
  rfl

theorem buffList_own (h : BuffSound db s now L) (hset : s.set pid = some set) (hs : SetSound s now pid set (ys ++ zs))
    (hpid : pid ≠ 0) {fuel : ℕ} (hfuel : s.top + (db.rows 0).length < fuel + ys.length) :
    ∃ everyone s', BuffState.buffList db now pid fuel s ys.getLast? = .ok (s.activeOf now zs ++ everyone, s') ∧
      Finished db s now L everyone s' := by
  have hnext := buffNext_own db hset hs hpid
  induction zs generalizing ys fuel with
  | nil =>
    refine buffList_turn h hs hpid hnext ?_
    rw [append_nil]
    exact hfuel
  | cons z zs ih =>
    rw [activeOf_cons]
    by_cases hact : now ≤ (s.buff z).endTime
    · have hexp : ¬ now > (s.buff z).endTime := by omega
      obtain ⟨fuel, rfl⟩ : ∃ k, fuel = k + 1 := by
        have hle := hs.length_le h.fresh
        rw [length_append, length_cons] at hle
        exact ⟨fuel - 1, by omega⟩
      have hassoc : ys ++ z :: zs = ys ++ [z] ++ zs := by simp
      rw [hassoc] at hs
      have hfuel' : s.top + (db.rows 0).length < fuel + (ys ++ [z]).length := by
        rw [length_append, length_singleton]
        omega
      obtain ⟨everyone, s', hrest, hfinished⟩ := ih hs hfuel' (buffNext_own db hset hs hpid)
      rw [List.getLast?_concat] at hrest
      refine ⟨everyone, s', ?_, hfinished⟩
      simp only [List.head?_cons, hexp, if_false] at hnext
      simp only [BuffState.buffList, hnext, ok_bind, hrest, pure_eq_ok, hact, if_true, cons_append]
    · have hexp : now > (s.buff z).endTime := by omega
      simp only [List.head?_cons, hexp, if_true] at hnext
      simp only [hact, if_false, nil_append]
      refine buffList_turn h hs hpid hnext ?_
      rw [length_append]
      omega

/-- A loop over the buffs of a player loads what it needs, and visits the buffs of the player and those of everyone. -/
theorem iterate_ok (h : BuffSound db s now L) (hpid : pid ≠ 0) :
    ∃ own everyone s', s.iterate db now pid = .ok (own ++ everyone, s') ∧ BuffSound db s' now L ∧ Active s' now L pid own ∧
      Active s' now L 0 everyone ∧ ∃ set', s'.set 0 = some set' := by
  obtain ⟨s₁, set, xs, hload, hsound, hset, hs, -, htop⟩ := load_ok h pid
  have hset' : s₁.set pid = some set := by
    rw [hset]
    exact update_self ..
  obtain ⟨everyone, s', hlist, hfinished⟩ := @buffList_own db s₁ now L pid set [] xs hsound hset' hs hpid
    (s.top + (db.rows pid).length + (db.rows 0).length + 1) (by simp only [length_nil]; omega)
  -- the first call has loaded the set
  have hfirst : ∀ k, BuffState.buffList db now pid k s none = BuffState.buffList db now pid k s₁ none := by
    intro k
    cases k with
    | zero => rfl
    | succ k =>
      have hnext : s.buffNext db now pid none = s₁.buffNext db now pid none := by
        simp only [BuffState.buffNext, any_none, Bool.false_eq_true, if_false, hload, load_loaded hset']
      rw [BuffState.buffList, BuffState.buffList, hnext]
  have hown : Active s' now L pid (s₁.activeOf now xs) := by
    refine (hs.active (hsound.held hset')).framed fun a ha => ?_
    have hmem := ((mem_activeOf hs.falling a).mp ha).1
    refine (hfinished.framed a (hs.ring.alive a hmem) ?_).1
    rw [(hs.node _ _ (hs.listed a hmem)).1]
    exact hpid
  obtain ⟨set', hset₀⟩ := hfinished.set
  refine ⟨_, everyone, s', ?_, hfinished.sound, hown, hfinished.active, set', ?_⟩
  · rw [BuffState.iterate, hfirst]
    exact hlist
  · rw [hset₀]
    exact update_self ..

end Loops

/-! ## Runs -/

section Runs
variable {db : BuffRows} {players : ℕ → Bool} {s s' : BuffState} {now : ℤ} {L : Ledger} {c : BuffCall} {calls : List BuffCall}

theorem isSome_update {f : ℕ → Option BuffSet} {pid : ℕ} {set : BuffSet} :
    (update f pid (some set) 0).isSome = ((f 0).isSome || decide (pid = 0)) := by
  by_cases hpid : pid = 0
  · subst hpid
    simp
  · simp [update_of_ne (Ne.symm hpid), hpid]

theorem buffStep_ok (players : ℕ → Bool) (h : BuffSound db s c.now L) (hloaded : ∀ id value, c.op = .remove 0 id value → (s.set 0).isSome = true) :
    ∃ s', buffStep db players s c = .ok s' ∧ BuffSound db s' c.now (L.step players c) ∧
      (s'.set 0).isSome = ((s.set 0).isSome || c.op.loadsGlobal) := by
  obtain ⟨now, op⟩ := c
  cases op with
  | add pid id value endTime =>
    by_cases hpid : pid = 0
    · subst hpid
      obtain ⟨s', hadd, hsound, set', hset⟩ := addGlobalBuff_ok h id (toUnsigned value) endTime
      refine ⟨s', hadd, hsound, ?_⟩
      rw [hset]
      exact isSome_update
    · by_cases hplayer : players pid = true
      · obtain ⟨s', hadd, hsound, set', hset⟩ := buffAdd_ok h hpid hplayer id value endTime
        refine ⟨s', hadd, ?_, ?_⟩
        · simpa only [Ledger.step, if_neg hpid, if_pos hplayer] using hsound
        · rw [hset]
          exact isSome_update
      · refine ⟨s, ?_, ?_, ?_⟩
        · simp only [buffStep, BuffState.buffAdd, if_neg hplayer, ne_eq, hpid, not_false_eq_true, if_true]
        · simpa only [Ledger.step, if_neg hpid, if_neg hplayer] using h
        · simp [BuffOp.loadsGlobal, hpid]
  | remove pid id value =>
    by_cases hpid : pid = 0
    · subst hpid
      obtain ⟨set, hset⟩ := isSome_iff_exists.mp (hloaded id value rfl)
      obtain ⟨s', hremove, hsound, set', hset'⟩ := removeGlobalBuff_ok h hset id (toUnsigned value)
      refine ⟨s', hremove, hsound, ?_⟩
      rw [hset', hset, isSome_update, hset]
      rfl
    · by_cases hplayer : players pid = true
      · obtain ⟨s', hremove, hsound, set', hset⟩ := buffRemove_ok h hpid hplayer id value
        refine ⟨s', hremove, ?_, ?_⟩
        · simpa only [Ledger.step, if_neg hpid, if_pos hplayer] using hsound
        · rw [hset, isSome_update]
          simp [BuffOp.loadsGlobal, hpid]
      · refine ⟨s, ?_, ?_, ?_⟩
        · simp only [buffStep, BuffState.buffRemove, ne_eq, hpid, not_false_eq_true, if_true, if_neg hplayer]
        · simpa only [Ledger.step, if_neg hpid, if_neg hplayer] using h
        · simp [BuffOp.loadsGlobal]
  | list pid hpid =>
    obtain ⟨own, everyone, s', hiterate, hsound, -, -, set', hset⟩ := iterate_ok h hpid
    refine ⟨s', ?_, hsound, ?_⟩
    · simp only [buffStep, hiterate, ok_bind, pure_eq_ok]
    · simp [hset, BuffOp.loadsGlobal]

theorem removeGlobalBuff_unloaded {id : ℕ} {value : ℤ} (hset : s.set 0 = none) :
    buffStep db players s ⟨now, .remove 0 id value⟩ = .error .outOfBounds := by
  simp only [buffStep, BuffState.buffRemove, BuffState.removeGlobalBuff, hset, ne_eq, not_true_eq_false, if_false]

theorem buffRun_ok (players : ℕ → Bool) (h : BuffSound db s now L) (hnow : ∀ c ∈ calls, now ≤ c.now)
    (hclock : calls.Pairwise fun c d => c.now ≤ d.now) :
    ((∃ s', buffRun db players s calls = .ok s') ↔ GlobalLoaded (s.set 0).isSome calls) ∧
      ∀ s', buffRun db players s calls = .ok s' → ∀ now', now ≤ now' → (∀ c ∈ calls, c.now ≤ now') →
        BuffSound db s' now' (L.run players calls) := by
  induction calls generalizing s now L with
  | nil =>
    refine ⟨⟨fun _ => trivial, fun _ => ⟨s, rfl⟩⟩, fun s' hs' now' hle _ => ?_⟩
    obtain rfl : s = s' := Except.ok.inj hs'
    exact h.mono hle
  | cons c calls ih =>
    obtain ⟨hfirst, hclock⟩ := pairwise_cons.mp hclock
    have hc := h.mono (hnow c (by simp))
    have hrun : ∀ s', buffRun db players s (c :: calls) = .ok s' ↔
        ∃ s₁, buffStep db players s c = .ok s₁ ∧ buffRun db players s₁ calls = .ok s' := fun s' => by
      rw [buffRun, foldlM_cons]
      exact bind_ok_iff
    by_cases hloaded : ∀ id value, c.op = .remove 0 id value → (s.set 0).isSome = true
    · obtain ⟨s₁, hstep, hsound, hsome⟩ := buffStep_ok players hc hloaded
      obtain ⟨hiff, hend⟩ := ih hsound hfirst hclock
      have hsame : ∀ s₂, buffStep db players s c = .ok s₂ → s₂ = s₁ := fun s₂ h₂ =>
        ok_unique h₂ hstep
      constructor
      · rw [GlobalLoaded, ← hsome, ← hiff]
        constructor
        · rintro ⟨s', hs'⟩
          obtain ⟨s₂, h₂, hs'⟩ := (hrun s').mp hs'
          exact ⟨hloaded, s', hsame s₂ h₂ ▸ hs'⟩
        · rintro ⟨-, s', hs'⟩
          exact ⟨s', (hrun s').mpr ⟨s₁, hstep, hs'⟩⟩
      · intro s' hs' now' _ hle
        obtain ⟨s₂, h₂, hs'⟩ := (hrun s').mp hs'
        rw [hsame s₂ h₂] at hs'
        exact hend s' hs' now' (hle c (by simp)) fun d hd => hle d (mem_cons_of_mem c hd)
    · -- the call reads a null pointer
      have hfault : ∀ s', buffRun db players s (c :: calls) ≠ .ok s' := by
        intro s' hs'
        obtain ⟨s₂, h₂, -⟩ := (hrun s').mp hs'
        simp only [not_forall] at hloaded
        obtain ⟨id, value, hop, hnone⟩ := hloaded
        obtain ⟨now', op⟩ := c
        obtain rfl : op = .remove 0 id value := hop
        rw [removeGlobalBuff_unloaded (by simpa using hnone)] at h₂
        exact absurd h₂ (by simp)
      refine ⟨⟨?_, fun hl => absurd hl.1 hloaded⟩, fun s' hs' => absurd hs' (hfault s')⟩
      rintro ⟨s', hs'⟩
      exact absurd hs' (hfault s')

theorem BuffSound.listsSorted (h : BuffSound db s now L) : ListsSorted s := by
  intro pid set hset
  obtain ⟨⟨xs, hsound⟩, -⟩ := h.loaded pid set hset
  exact ⟨xs, hsound.ring, hsound.head, hsound.falling, hsound.ids_nodup⟩

theorem BuffSound.enumerates (h : BuffSound db s now L) : Enumerates db s now L := by
  intro pid hpid
  obtain ⟨own, everyone, s', hiterate, -, hown, heveryone, -⟩ := iterate_ok h hpid
  exact ⟨own, everyone, s', hiterate, hown, heveryone⟩

end Runs

theorem exists_latest (calls : List BuffCall) : ∃ last, ∀ c ∈ calls, c.now ≤ last := by
  induction calls with
  | nil => exact ⟨0, by simp⟩
  | cons c calls ih =>
    obtain ⟨last, hlast⟩ := ih
    refine ⟨max c.now last, fun d hd => ?_⟩
    obtain rfl | hd := mem_cons.mp hd
    · exact le_max_left _ _
    · exact (hlast d hd).trans (le_max_right _ _)

theorem exists_start {calls : List BuffCall} (hclock : calls.Pairwise fun c d => c.now ≤ d.now) {now : ℤ}
    (hnow : ∀ c ∈ calls, c.now ≤ now) : ∃ start, start ≤ now ∧ ∀ c ∈ calls, start ≤ c.now := by
  cases calls with
  | nil => exact ⟨now, le_rfl, by simp⟩
  | cons c calls =>
    refine ⟨c.now, hnow c (by simp), fun d hd => ?_⟩
    obtain rfl | hd := mem_cons.mp hd
    · exact le_rfl
    · exact (pairwise_cons.mp hclock).1 d hd

/-- Under a clock that does not go back, a run goes through, its lists sorted and each loop over the buffs of a player visiting
exactly those that have not expired, exactly if no buff of everyone is removed before their set has been loaded. -/
theorem activeBuffs_iff (db : BuffRows) (players : ℕ → Bool) (calls : List BuffCall)
    (hclock : calls.Pairwise fun c d => c.now ≤ d.now) :
    (∃ s, buffRun db players .init calls = .ok s ∧ ListsSorted s ∧
      ∀ now, (∀ c ∈ calls, c.now ≤ now) → Enumerates db s now (db.ledger.run players calls)) ↔ GlobalLoaded false calls := by
  have hrun : ∀ now, (∀ c ∈ calls, c.now ≤ now) →
      ((∃ s, buffRun db players .init calls = .ok s) ↔ GlobalLoaded false calls) ∧
        ∀ s, buffRun db players .init calls = .ok s → BuffSound db s now (db.ledger.run players calls) := by
    intro now hnow
    obtain ⟨start, hstart, hfirst⟩ := exists_start hclock hnow
    obtain ⟨hiff, hend⟩ := buffRun_ok players (BuffSound.init : BuffSound db .init start db.ledger) hfirst hclock
    exact ⟨hiff, fun s hs => hend s hs now hstart hnow⟩
  obtain ⟨last, hlast⟩ := exists_latest calls
  obtain ⟨hiff, hend⟩ := hrun last hlast
  constructor
  · rintro ⟨s, hs, -⟩
    exact hiff.mp ⟨s, hs⟩
  · intro hl
    obtain ⟨s, hs⟩ := hiff.mpr hl
    exact ⟨s, hs, (hend s hs).listsSorted, fun now hnow => ((hrun now hnow).2 s hs).enumerates⟩

def noRows : BuffRows := ⟨fun _ => [], fun _ _ hb => absurd hb (by simp), fun _ => nodup_nil⟩

theorem activeBuffs_three : ∃ s,
    buffRun noRows (fun _ => true) .init [⟨0, .add 0 7 5 100⟩, ⟨1, .add 1 8 3 50⟩, ⟨2, .remove 0 7 1⟩] = .ok s ∧ ListsSorted s ∧
      ∀ now, (∀ c ∈ [(⟨0, .add 0 7 5 100⟩ : BuffCall), ⟨1, .add 1 8 3 50⟩, ⟨2, .remove 0 7 1⟩], c.now ≤ now) →
        Enumerates noRows s now
          (noRows.ledger.run (fun _ => true) [⟨0, .add 0 7 5 100⟩, ⟨1, .add 1 8 3 50⟩, ⟨2, .remove 0 7 1⟩]) :=
  (activeBuffs_iff noRows (fun _ => true) [⟨0, .add 0 7 5 100⟩, ⟨1, .add 1 8 3 50⟩, ⟨2, .remove 0 7 1⟩] (by simp)).mpr
    (by simp [GlobalLoaded, BuffOp.loadsGlobal])

/-- Removing a buff of everyone as the first thing reads a null pointer. -/
theorem removeFirst_faults : ¬ ∃ s, buffRun noRows (fun _ => true) .init [⟨0, .remove 0 7 1⟩] = .ok s := by
  rintro ⟨s, hs⟩
  have hfault : buffRun noRows (fun _ => true) .init [⟨0, .remove 0 7 1⟩] = .error .outOfBounds := rfl
  rw [hfault] at hs
  exact absurd hs (by simp)

end CServer.Modules
