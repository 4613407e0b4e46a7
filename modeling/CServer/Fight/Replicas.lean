import CServer.Fight.Timeline

/-! # The order of play in the attacker's and in the defender's replica

Each side of a fight runs it for itself, and sees its own roles on side 1: `GetDataByRefid` exchanges
the sides for the defender, and `order_queue_sort` compares them the other way round. The assistant is
put on side 1 in both, and `SortAssistant` places it before the first object of side 1.
-/
namespace CServer.Fight
open List Option

/-! ## `table.sort` -/

structure StrictWeak (f : ℕ → ℕ → Bool) : Prop where
  asymm : ∀ x y, f x y = true → f y x = false
  trans : ∀ x y z, f y x = false → f z y = false → f z x = false

/-- A `table.sort` that sorts: no element comes before an earlier one. -/
structure SortingTable extends TableSort where
  sorted : ∀ f l, StrictWeak f → (sort f l).Pairwise fun x y => f y x = false

def SortingTable.insertion : SortingTable where
  toTableSort := .insertion
  sorted f l h := by
    have htotal : Std.Total fun x y => f y x = false := by
      refine ⟨fun x y => ?_⟩
      cases hyx : f y x with
      | false => exact .inl rfl
      | true => exact .inr (h.asymm y x hyx)
    have htrans : IsTrans ℕ fun x y => f y x = false := ⟨h.trans⟩
    exact pairwise_insertionSort _ l

/-! ## The code -/

section
variable {Speed : Type} [LinearOrder Speed]

structure SortKey (Speed : Type) where
  lock : Bool
  shareMode : ℕ
  speed : Speed
  side : ℕ
  pos : ℕ

/-- The comparison of `order_queue_sort`, a `function(b, a)`. -/
def orderBefore (workAsDefender : Bool) (b a : SortKey Speed) : Bool :=
  if a.lock ≠ b.lock then a.lock
  else if a.shareMode = 2 ∧ b.shareMode ≠ 2 then false
  else if a.shareMode ≠ 2 ∧ b.shareMode = 2 then true
  else if a.speed ≠ b.speed then decide (a.speed > b.speed)
  else if a.side ≠ b.side then
    if workAsDefender then decide (a.side ≥ b.side) else decide (a.side < b.side)
  else decide (a.pos < b.pos)

end

theorem timeline_before (cfg : TimelineConfig) (s : Timeline) (b a : ℕ) :
    s.before cfg b a = orderBefore cfg.workAsDefender
      ⟨s.lock b, (cfg.unit b).shareMode, s.speed b, (cfg.unit b).side, s.pos b⟩
      ⟨s.lock a, (cfg.unit a).shareMode, s.speed a, (cfg.unit a).side, s.pos a⟩ := rfl

structure RoleData where
  refid : ℕ
  shareMode : ℕ

structure Fighter where
  pid : ℕ
  roles : List RoleData
  assists : List RoleData

structure FightData where
  attacker : Fighter
  defender : Fighter
  distinct : attacker.pid ≠ defender.pid

def getDataByRefid (data : FightData) (pid refid : ℕ) : Option (RoleData × ℕ) :=
  let friend := if pid = data.defender.pid then 2 else 1
  let enemy := if pid = data.defender.pid then 1 else 2
  let find := fun (l : List RoleData) => l.find? fun v => v.refid = refid
  ((find data.attacker.roles).map (·, friend)).or <|
    ((find data.defender.roles).map (·, enemy)).or <|
      ((find data.attacker.assists).map (·, friend)).or ((find data.defender.assists).map (·, enemy))

/-- The objects of a battle, the same in both replicas; what the timeline and the scripts change of them
is as it is when the queue is sorted. -/
structure BattleObjects (Speed : Type) where
  data : FightData
  refid : ℕ → ℕ
  lock : ℕ → Bool
  speed : ℕ → Speed
  pos : ℕ → ℕ
  assistant : Option ℕ

namespace BattleObjects
variable {Speed : Type} [LinearOrder Speed] (b : BattleObjects Speed)

/-- An object as `AddRoleByRef` makes it in the replica of `pid`; the assistant is `Assistant(self, 1)`
in each. -/
def key (pid obj : ℕ) : SortKey Speed :=
  if b.assistant = some obj then ⟨b.lock obj, 0, b.speed obj, 1, 100 + 1⟩
  else
    match getDataByRefid b.data pid (b.refid obj) with
    | some (v, side) => ⟨b.lock obj, v.shareMode, b.speed obj, side, b.pos obj⟩
    | none => ⟨b.lock obj, 0, b.speed obj, 0, b.pos obj⟩

/-- `Timeline:Sort` of one queue in the replica of `pid`, which works as defender when it is the
defender's. -/
def sort (table : TableSort) (pid : ℕ) (q : TimelineArray) : TimelineArray :=
  q.arranged table (fun y x => orderBefore (pid == b.data.defender.pid) (b.key pid y) (b.key pid x)) b.assistant
    fun obj => (b.key pid obj).side == 1

end BattleObjects

/-! ## The comparison as a rank -/

section
variable {Speed : Type} [LinearOrder Speed]

def SortKey.rank (workAsDefender : Bool) (k : SortKey Speed) : Bool ×ₗ Bool ×ₗ Speed ×ₗ ℤ ×ₗ ℤ :=
  toLex (k.lock, toLex (decide (k.shareMode ≠ 2), toLex (k.speed,
    toLex (if workAsDefender then (k.side : ℤ) else -k.side, -(k.pos : ℤ)))))

theorem orderBefore_eq_rank (workAsDefender : Bool) (b a : SortKey Speed) :
    orderBefore workAsDefender b a = decide (b.rank workAsDefender < a.rank workAsDefender) := by
  rw [Bool.eq_iff_iff, decide_eq_true_iff]
  simp only [SortKey.rank, Prod.Lex.toLex_lt_toLex]
  unfold orderBefore
  split
  · next h =>
    cases ha : a.lock <;> cases hb : b.lock <;> simp_all
  · next hlock =>
    have hlock : b.lock = a.lock := (not_not.mp hlock).symm
    split
    · next h => simp [hlock, h.1, h.2]
    · next h2 =>
      split
      · next h => simp [hlock, h.1, h.2]
      · next h3 =>
        have hshare : (b.shareMode ≠ 2) = (a.shareMode ≠ 2) := by
          by_cases ha : a.shareMode = 2 <;> by_cases hb : b.shareMode = 2 <;> simp_all
        simp only [hlock, hshare, lt_self_iff_false, false_or, true_and]
        split
        · next hspeed =>
          simp [Ne.symm hspeed]
        · next hspeed =>
          have hspeed : b.speed = a.speed := (not_not.mp hspeed).symm
          simp only [hspeed, lt_self_iff_false, false_or, true_and]
          split
          · next hside =>
            cases workAsDefender with
            | false =>
              simp only [Bool.false_eq_true, if_false, decide_eq_true_eq]
              omega
            | true =>
              simp only [if_true, decide_eq_true_eq]
              omega
          · next hside =>
            have hside : b.side = a.side := (not_not.mp hside).symm
            simp only [hside, lt_self_iff_false, false_or, true_and, decide_eq_true_eq]
            omega

theorem strictWeak_of_rank (workAsDefender : Bool) (key : ℕ → SortKey Speed) :
    StrictWeak fun y x => orderBefore workAsDefender (key y) (key x) := by
  refine ⟨fun x y h => ?_, fun x y z h1 h2 => ?_⟩
  · rw [orderBefore_eq_rank] at h ⊢
    exact decide_eq_false (not_lt_of_gt (of_decide_eq_true h))
  · rw [orderBefore_eq_rank] at h1 h2 ⊢
    exact decide_eq_false (not_lt.mpr ((not_lt.mp (of_decide_eq_false h1)).trans (not_lt.mp (of_decide_eq_false h2))))

end

/-! ## The two replicas -/

theorem getDataByRefid_mirrored {data : FightData} {refid : ℕ} {v : RoleData} {side : ℕ}
    (h : getDataByRefid data data.attacker.pid refid = some (v, side)) :
    (side = 1 ∨ side = 2) ∧ getDataByRefid data data.defender.pid refid = some (v, 3 - side) := by
  unfold getDataByRefid at h ⊢
  simp only [data.distinct, if_false, if_true] at h ⊢
  cases h1 : data.attacker.roles.find? (fun v => v.refid = refid) with
  | some w =>
    simp only [h1, map_some, some_or, some.injEq, Prod.mk.injEq] at h ⊢
    exact ⟨.inl h.2.symm, h.1, by omega⟩
  | none =>
    simp only [h1, map_none, none_or] at h ⊢
    cases h2 : data.defender.roles.find? (fun v => v.refid = refid) with
    | some w =>
      simp only [h2, map_some, some_or, some.injEq, Prod.mk.injEq] at h ⊢
      exact ⟨.inr h.2.symm, h.1, by omega⟩
    | none =>
      simp only [h2, map_none, none_or] at h ⊢
      cases h3 : data.attacker.assists.find? (fun v => v.refid = refid) with
      | some w =>
        simp only [h3, map_some, some_or, some.injEq, Prod.mk.injEq] at h ⊢
        exact ⟨.inl h.2.symm, h.1, by omega⟩
      | none =>
        simp only [h3, map_none, none_or] at h ⊢
        cases h4 : data.defender.assists.find? (fun v => v.refid = refid) with
        | some w =>
          simp only [h4, map_some, some.injEq, Prod.mk.injEq] at h ⊢
          exact ⟨.inr h.2.symm, h.1, by omega⟩
        | none =>
          simp only [h4, map_none] at h
          cases h

/-- The queues of the two replicas hold the same objects, in any order: roles of the fight and perhaps
the assistant, no two on one side and position. -/
structure SameObjects {Speed : Type} (b : BattleObjects Speed) (q q' : TimelineArray) : Prop where
  dirty : q.dirty = true ∧ q'.dirty = true
  agrees : q.Agrees
  agrees' : q'.Agrees
  once : q.array.Nodup
  same : q.array.Perm q'.array
  roles : ∀ x ∈ q.array, b.assistant ≠ some x → (getDataByRefid b.data b.data.attacker.pid (b.refid x)).isSome
  distinct : ∀ x ∈ q.array, ∀ y ∈ q.array, (b.key b.data.attacker.pid x).side = (b.key b.data.attacker.pid y).side →
    (b.key b.data.attacker.pid x).pos = (b.key b.data.attacker.pid y).pos → x = y

section
variable {Speed : Type} {b : BattleObjects Speed} {x y : ℕ}

theorem key_mirrored (hx : b.assistant ≠ some x)
    (hrole : (getDataByRefid b.data b.data.attacker.pid (b.refid x)).isSome) :
    ((b.key b.data.attacker.pid x).side = 1 ∨ (b.key b.data.attacker.pid x).side = 2) ∧
      b.key b.data.defender.pid x =
        { b.key b.data.attacker.pid x with side := 3 - (b.key b.data.attacker.pid x).side } := by
  obtain ⟨⟨v, side⟩, hdata⟩ := isSome_iff_exists.mp hrole
  obtain ⟨hside, hdata'⟩ := getDataByRefid_mirrored hdata
  simp only [BattleObjects.key, hx, if_false, hdata, hdata', and_true]
  exact hside

theorem orderBefore_mirrored [LinearOrder Speed] (hx : b.assistant ≠ some x) (hy : b.assistant ≠ some y)
    (hrole : (getDataByRefid b.data b.data.attacker.pid (b.refid x)).isSome)
    (hrole' : (getDataByRefid b.data b.data.attacker.pid (b.refid y)).isSome) :
    orderBefore true (b.key b.data.defender.pid y) (b.key b.data.defender.pid x) =
      orderBefore false (b.key b.data.attacker.pid y) (b.key b.data.attacker.pid x) := by
  obtain ⟨hside, hkey⟩ := key_mirrored hx hrole
  obtain ⟨hside', hkey'⟩ := key_mirrored hy hrole'
  generalize b.key b.data.attacker.pid x = k at hside hkey ⊢
  generalize b.key b.data.attacker.pid y = k' at hside' hkey' ⊢
  rw [hkey, hkey', orderBefore_eq_rank, orderBefore_eq_rank, Bool.eq_iff_iff, decide_eq_true_iff, decide_eq_true_iff]
  simp only [SortKey.rank, Prod.Lex.toLex_lt_toLex, if_true, Bool.false_eq_true, if_false]
  have hlt : ((3 - k'.side : ℕ) : ℤ) < ((3 - k.side : ℕ) : ℤ) ↔ -(k'.side : ℤ) < -(k.side : ℤ) := by omega
  have heq : ((3 - k'.side : ℕ) : ℤ) = ((3 - k.side : ℕ) : ℤ) ↔ -(k'.side : ℤ) = -(k.side : ℤ) := by omega
  rw [hlt, heq]

end

/-! ## Where the assistant is placed -/

theorem insertBefore_ne {p p' : ℕ → Bool} {obj : ℕ} {l : List ℕ} (hl : l ≠ []) (hobj : obj ∉ l)
    (hp : ∀ x ∈ l, p' x = !p x) : TimelineArray.insertBefore p obj l ≠ TimelineArray.insertBefore p' obj l := by
  cases l with
  | nil => exact absurd rfl hl
  | cons x l =>
    have hx : obj ≠ x := fun h => hobj (h ▸ mem_cons_self)
    have hpx := hp x mem_cons_self
    cases hc : p x with
    | true =>
      rw [hc] at hpx
      simp only [TimelineArray.insertBefore, hc, hpx, if_true, Bool.not_true, Bool.false_eq_true, if_false]
      exact fun h => hx (cons.inj h).1
    | false =>
      rw [hc] at hpx
      simp only [TimelineArray.insertBefore, hc, hpx, if_true, Bool.not_false, Bool.false_eq_true, if_false]
      exact fun h => hx (cons.inj h).1.symm

section
variable {Speed : Type} [LinearOrder Speed] {b : BattleObjects Speed} {q q' : TimelineArray}

/-- The queue of the replica of `pid` when `table.sort` is done with it. -/
def BattleObjects.sorted (b : BattleObjects Speed) (table : TableSort) (pid : ℕ) (q : TimelineArray) : List ℕ :=
  table.sort (fun y x => orderBefore (pid == b.data.defender.pid) (b.key pid y) (b.key pid x)) q.array

theorem sort_absent (table : TableSort) (pid : ℕ) (hd : q.dirty = true) (ha : q.Agrees)
    (h : ∀ obj, b.assistant = some obj → obj ∉ q.array) : (b.sort table pid q).array = b.sorted table pid q := by
  unfold BattleObjects.sort TimelineArray.arranged TimelineArray.sortAssistant
  rw [if_pos hd]
  cases hb : b.assistant with
  | none => rfl
  | some obj =>
    have hfind : q.objs obj = false := Bool.eq_false_iff.mpr fun ho => h obj hb ((ha obj).mp ho)
    simp only [TimelineArray.find, hfind, Bool.false_eq_true, if_false]
    rfl

theorem sort_present (table : TableSort) (pid : ℕ) {obj : ℕ} (hd : q.dirty = true) (ha : q.Agrees)
    (honce : q.array.Nodup) (hb : b.assistant = some obj) (hmem : obj ∈ q.array) :
    (b.sort table pid q).array = TimelineArray.insertBefore (fun x => (b.key pid x).side == 1) obj
      ((b.sorted table pid q).filter fun x => b.assistant ≠ some x) := by
  have hperm : (b.sorted table pid q).Perm q.array := table.perm _ _
  have hsorted : obj ∈ b.sorted table pid q := hperm.mem_iff.mpr hmem
  have herase : ((b.sorted table pid q).reverse.erase obj).reverse =
      (b.sorted table pid q).filter fun x => b.assistant ≠ some x := by
    rw [((nodup_reverse.mpr (hperm.nodup_iff.mpr honce))).erase_eq_filter, filter_reverse, reverse_reverse]
    refine filter_congr fun x _ => ?_
    rw [hb, Bool.eq_iff_iff, bne_iff_ne, decide_eq_true_iff]
    exact not_congr ⟨fun h => congrArg some h.symm, fun h => (some.inj h).symm⟩
  rw [← herase]
  unfold BattleObjects.sorted at hsorted ⊢
  unfold BattleObjects.sort TimelineArray.arranged TimelineArray.sortAssistant
  rw [if_pos hd, hb]
  simp only [TimelineArray.find, (ha obj).mpr hmem, if_true, TimelineArray.remove]
  rw [if_pos hsorted]

theorem roles_sorted_alike (table : SortingTable) (h : SameObjects b q q') :
    (b.sorted table.toTableSort b.data.attacker.pid q).filter (fun x => b.assistant ≠ some x) =
      (b.sorted table.toTableSort b.data.defender.pid q').filter fun x => b.assistant ≠ some x := by
  have hperm : (b.sorted table.toTableSort b.data.attacker.pid q).Perm q.array := table.perm _ _
  have hperm' : (b.sorted table.toTableSort b.data.defender.pid q').Perm q'.array := table.perm _ _
  have hatt : (b.data.attacker.pid == b.data.defender.pid) = false := beq_false_of_ne b.data.distinct
  have hdef : (b.data.defender.pid == b.data.defender.pid) = true := beq_self_eq_true _
  have hmem : ∀ x ∈ (b.sorted table.toTableSort b.data.attacker.pid q).filter (fun x => b.assistant ≠ some x),
      x ∈ q.array ∧ b.assistant ≠ some x := by
    intro x hx
    obtain ⟨hx, hrole⟩ := mem_filter.mp hx
    exact ⟨hperm.mem_iff.mp hx, of_decide_eq_true hrole⟩
  have hmem' : ∀ x ∈ (b.sorted table.toTableSort b.data.defender.pid q').filter (fun x => b.assistant ≠ some x),
      x ∈ q.array ∧ b.assistant ≠ some x := by
    intro x hx
    obtain ⟨hx, hrole⟩ := mem_filter.mp hx
    exact ⟨h.same.mem_iff.mpr (hperm'.mem_iff.mp hx), of_decide_eq_true hrole⟩
  -- in both, a role comes after those it has the better of for the attacker
  have hsorted : ((b.sorted table.toTableSort b.data.attacker.pid q).filter fun x => b.assistant ≠ some x).Pairwise
      fun x y => orderBefore false (b.key b.data.attacker.pid y) (b.key b.data.attacker.pid x) = false := by
    have hs := table.sorted _ q.array
      (strictWeak_of_rank (b.data.attacker.pid == b.data.defender.pid) (b.key b.data.attacker.pid))
    rw [hatt] at hs
    unfold BattleObjects.sorted
    rw [hatt]
    exact hs.sublist filter_sublist
  have hsorted' : ((b.sorted table.toTableSort b.data.defender.pid q').filter fun x => b.assistant ≠ some x).Pairwise
      fun x y => orderBefore false (b.key b.data.attacker.pid y) (b.key b.data.attacker.pid x) = false := by
    have hs := table.sorted _ q'.array
      (strictWeak_of_rank (b.data.defender.pid == b.data.defender.pid) (b.key b.data.defender.pid))
    have hs' := hs.sublist (filter_sublist (p := fun x => decide (b.assistant ≠ some x)))
    refine hs'.imp_of_mem fun {x y} hx hy hxy => ?_
    obtain ⟨hxq, hxr⟩ := hmem' x hx
    obtain ⟨hyq, hyr⟩ := hmem' y hy
    rw [hdef] at hxy
    rw [← orderBefore_mirrored hxr hyr (h.roles x hxq hxr) (h.roles y hyq hyr)]
    exact hxy
  refine Perm.eq_of_pairwise (fun x y hx hy hxy hyx => ?_) hsorted hsorted' ?_
  · rw [orderBefore_eq_rank] at hxy hyx
    have hrank := le_antisymm (not_lt.mp (of_decide_eq_false hyx)) (not_lt.mp (of_decide_eq_false hxy))
    simp only [SortKey.rank, Bool.false_eq_true, if_false, toLex_inj, Prod.mk.injEq] at hrank
    obtain ⟨_, _, _, hside, hpos⟩ := hrank
    exact h.distinct x (hmem x hx).1 y (hmem' y hy).1 (by omega) (by omega)
  · exact ((hperm.trans h.same).trans hperm'.symm).filter _

/-- The replicas agree on the order of play if and only if the assistant does not stand among others. -/
theorem replicas_agree_iff (table : SortingTable) (h : SameObjects b q q') :
    (b.sort table.toTableSort b.data.attacker.pid q).array = (b.sort table.toTableSort b.data.defender.pid q').array ↔
      ∀ obj, b.assistant = some obj → obj ∈ q.array → q.array = [obj] := by
  have hperm : (b.sorted table.toTableSort b.data.attacker.pid q).Perm q.array := table.perm _ _
  have hperm' : (b.sorted table.toTableSort b.data.defender.pid q').Perm q'.array := table.perm _ _
  have halike := roles_sorted_alike table h
  by_cases hin : ∃ obj, b.assistant = some obj ∧ obj ∈ q.array
  · obtain ⟨obj, hb, hmem⟩ := hin
    rw [sort_present table.toTableSort _ h.dirty.1 h.agrees h.once hb hmem,
      sort_present table.toTableSort _ h.dirty.2 h.agrees' (h.same.nodup_iff.mp h.once) hb (h.same.mem_iff.mp hmem),
      ← halike]
    have hroles : ∀ x ∈ (b.sorted table.toTableSort b.data.attacker.pid q).filter (fun x => b.assistant ≠ some x),
        x ∈ q.array ∧ b.assistant ≠ some x := by
      intro x hx
      obtain ⟨hx, hrole⟩ := mem_filter.mp hx
      exact ⟨hperm.mem_iff.mp hx, of_decide_eq_true hrole⟩
    constructor
    · intro heq obj' hb' _
      obtain rfl := some.inj (hb.symm.trans hb')
      by_contra hne
      refine insertBefore_ne ?_ ?_ ?_ heq
      · intro hnil
        refine hne ?_
        have hall : ∀ x ∈ q.array, x = obj := by
          intro x hx
          by_contra hxo
          refine not_mem_nil (hnil ▸ mem_filter.mpr ⟨hperm.mem_iff.mpr hx, decide_eq_true ?_⟩)
          rw [hb]
          exact fun hs => hxo (some.inj hs).symm
        refine perm_singleton.mp ((perm_ext_iff_of_nodup h.once (nodup_singleton obj)).mpr fun x => ?_)
        rw [mem_singleton]
        refine ⟨hall x, ?_⟩
        rintro rfl
        exact hmem
      · exact fun hx => (hroles obj hx).2 hb
      · intro x hx
        obtain ⟨hxq, hxr⟩ := hroles x hx
        obtain ⟨hside, hkey⟩ := key_mirrored hxr (h.roles x hxq hxr)
        rw [hkey]
        rcases hside with hside | hside <;> rw [hside] <;> rfl
    · intro hall
      have hq := hall obj hb hmem
      have hnil : (b.sorted table.toTableSort b.data.attacker.pid q).filter (fun x => b.assistant ≠ some x) = [] := by
        refine filter_eq_nil_iff.mpr fun x hx => ?_
        have hx' := hperm.mem_iff.mp hx
        rw [hq, mem_singleton] at hx'
        rw [hx', hb]
        simp
      rw [hnil]
      rfl
  · have hout : ∀ obj, b.assistant = some obj → obj ∉ q.array := fun obj hb hmem => hin ⟨obj, hb, hmem⟩
    have hout' : ∀ obj, b.assistant = some obj → obj ∉ q'.array := fun obj hb hmem => hout obj hb (h.same.mem_iff.mpr hmem)
    refine iff_of_true ?_ fun obj hb hmem => absurd hmem (hout obj hb)
    rw [sort_absent table.toTableSort _ h.dirty.1 h.agrees hout, sort_absent table.toTableSort _ h.dirty.2 h.agrees' hout']
    have hall : ∀ (l : List ℕ), (∀ x ∈ l, x ∈ q.array) → l.filter (fun x => b.assistant ≠ some x) = l :=
      fun l hl => filter_eq_self.mpr fun x hx => decide_eq_true fun hb => hout x hb (hl x hx)
    rw [hall _ fun x hx => hperm.mem_iff.mp hx, hall _ fun x hx => h.same.mem_iff.mpr (hperm'.mem_iff.mp hx)] at halike
    exact halike

end

def duel (assistant : Option ℕ) : BattleObjects ℤ where
  data := ⟨⟨7, [⟨1, 0⟩], []⟩, ⟨8, [⟨2, 0⟩], []⟩, by decide⟩
  refid obj := obj
  lock _ := false
  speed _ := 100
  pos _ := 1
  assistant := assistant

theorem replicas_agree_duel :
    ((duel none).sort .insertion 7 ((TimelineArray.new.push 1).push 2)).array =
      ((duel none).sort .insertion 8 ((TimelineArray.new.push 2).push 1)).array := by
  refine (@replicas_agree_iff ℤ _ (duel none) _ _ SortingTable.insertion ?_).mpr nofun
  exact
    { dirty := ⟨rfl, rfl⟩
      agrees := (TimelineArray.agrees_new.push 1).push 2
      agrees' := (TimelineArray.agrees_new.push 2).push 1
      once := by decide
      same := by decide
      roles := by decide
      distinct := by decide }

/-- With the assistant, the attacker's replica puts it behind the attacker's role and the defender's
replica behind the defender's. -/
theorem assistant_disagrees : ¬ ∀ (table : SortingTable) (b : BattleObjects ℤ) (q q' : TimelineArray),
    SameObjects b q q' → (b.sort table.toTableSort b.data.attacker.pid q).array =
      (b.sort table.toTableSort b.data.defender.pid q').array := by
  intro h
  let q := ((TimelineArray.new.push 1).push 2).push 3
  have hsame : SameObjects (duel (some 3)) q q :=
    { dirty := ⟨rfl, rfl⟩
      agrees := ((TimelineArray.agrees_new.push 1).push 2).push 3
      agrees' := ((TimelineArray.agrees_new.push 1).push 2).push 3
      once := by decide
      same := .refl _
      roles := by decide
      distinct := by decide }
  exact absurd (h .insertion (duel (some 3)) q q hsame) (by decide)

end CServer.Fight
