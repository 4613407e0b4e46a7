import CServer.Lib.DList
import CServer.Modules.EquipValue

/-! # `world/modules/equip.c`: a trade, in memory

The equips of a player are in a list and in a map by uuid; under the uuid of an equip another map has the list of its values.
A trade takes the equip out of both, and its values one by one out of their list, whose first node changes as it gets shorter.
Seller and buyer may be one player, whose set is then changed twice.

Equips and values are addresses, with their links in `links` and `valueLinks`. What `player_get_module` finds, and how many talents
the equip has, are inputs. The rows of the database and the notifications are left out.
-/
namespace CServer.Modules.EquipTrade
open CServer.Lib Function List
open Option hiding mem_map map map_map or or_self

/-! ## The code -/

structure Equip where
  uuid : ℕ
  pid : ℕ
  gid : ℤ
  heroid : ℤ
  placeholder : ℤ
  heroUuid : ℕ
  level : ℤ
  exp : ℤ
  affix : ℕ → EquipAffixInfo
  addTime : ℕ

structure EquipValue where
  pid : ℕ
  uid : ℕ
  type : ℤ
  id : ℤ
  value : ℤ

structure EquipSet where
  m : ℕ → Option ℕ
  list : Option ℕ
  fightFormation : ℕ → Option (ℕ → Option ℕ)
  values : ℕ → Option ℕ

structure EquipMemory where
  links : DHeap
  equip : ℕ → Equip
  valueLinks : DHeap
  value : ℕ → EquipValue
  loaded : ℕ → Bool
  set : ℕ → EquipSet

namespace EquipMemory

variable (w : EquipMemory)

def setOf (pid : ℕ) (set : EquipSet) : EquipMemory := { w with set := update w.set pid set }

def setGid (equip : ℕ) (gid : ℤ) : EquipMemory :=
  { w with equip := update w.equip equip { w.equip equip with gid := gid } }

def changePid (equip pid : ℕ) : EquipMemory :=
  { w with equip := update w.equip equip { w.equip equip with pid := pid } }

def changeValuePid (value pid : ℕ) : EquipMemory :=
  { w with value := update w.value value { w.value value with pid := pid } }

/-- The equip leaves the map and the list of the seller; its values leave the map, and are in a list of their own. -/
def takeOut (seller equip : ℕ) : Except Fault (EquipMemory × Option ℕ) := do
  let set := w.set seller
  let uuid := (w.equip equip).uuid
  assert (set.m uuid).isSome
  let r ← dlistRemove w.links set.list equip
  let w := { w with links := r.1 }
  let values := set.values uuid
  return (w.setOf seller
    { set with m := update set.m uuid none, list := r.2, values := update set.values uuid none }, values)

def bringValue (buyer cur : ℕ) : Except Fault EquipMemory :=
  let set := w.set buyer
  let uid := (w.value cur).uid
  match set.values uid with
  | none => do
    let r ← dlistInsertTail w.valueLinks none cur
    return { w with valueLinks := r.1 }.setOf buyer { set with values := update set.values uid r.2 }
  | some head => do
    w.valueLinks.access head
    assert (decide (uid = (w.value head).uid))
    let r ← dlistInsertTail w.valueLinks (some head) cur
    return { w with valueLinks := r.1 }

def moveValues (buyer : ℕ) : ℕ → EquipMemory → Option ℕ → Except Fault EquipMemory
  | _, w, none => .ok w
  | 0, _, some _ => .error .diverges
  | steps + 1, w, some cur => do
    let r ← dlistRemove w.valueLinks (some cur) cur
    let w ← ({ w with valueLinks := r.1 }.changeValuePid cur buyer).bringValue buyer cur
    moveValues buyer steps w r.2

def bringIn (buyer equip : ℕ) : Except Fault EquipMemory := do
  let w := w.changePid equip buyer
  let set := w.set buyer
  let m := update set.m (w.equip equip).uuid (some equip)
  let r ← dlistInsertTail (dlistInit w.links equip) set.list equip
  return { w with links := r.1 }.setOf buyer { set with m := m, list := r.2 }

/-- `equip_trade`; `talentCount` is `get_total_talent_count(seller, TalentType_Equip, equip->uuid)`. -/
def equipTrade (steps : ℕ) (talentCount : ℤ) (w : EquipMemory) (seller buyer equip : ℕ) :
    Except Fault (ℤ × EquipMemory) := do
  w.links.access equip
  if talentCount > 0 then return (-1, w)
  else if w.loaded seller = false then return (-1, w)
  else if w.loaded buyer = false then return (-1, w)
  else if (w.equip equip).pid ≠ seller then return (-1, w)
  else if (w.equip equip).heroUuid > 0 ∨ (w.equip equip).placeholder ≠ 0 then return (-1, w)
  else do
    let r ← w.takeOut seller equip
    let w ← moveValues buyer steps r.1 r.2
    let gid := (w.equip equip).gid
    let w := w.setGid equip 0
    let w ← w.bringIn buyer equip
    return (0, w.setGid equip gid)

end EquipMemory

/-! ## What a trade should do -/

/-- The set of a player has the equips `xs`, in this order, and under a uuid `u` the values `vs u`. -/
structure Coherent (w : EquipMemory) (pid : ℕ) (xs : List ℕ) (vs : ℕ → List ℕ) : Prop where
  ring : DRing w.links xs
  list : (w.set pid).list = xs.head?
  index : ∀ u p, (w.set pid).m u = some p ↔ p ∈ xs ∧ (w.equip p).uuid = u
  owner : ∀ p ∈ xs, (w.equip p).pid = pid
  worn : ∀ hero arr i p, (w.set pid).fightFormation hero = some arr → arr i = some p → p ∈ xs ∧ (w.equip p).placeholder ≠ 0
  valueRing : ∀ u, DRing w.valueLinks (vs u)
  heads : ∀ u, (w.set pid).values u = (vs u).head?
  uid : ∀ u, ∀ v ∈ vs u, (w.value v).uid = u ∧ (w.value v).pid = pid

def tradedList (xs : ℕ → List ℕ) (seller buyer equip : ℕ) : ℕ → List ℕ :=
  let sold := update xs seller ((xs seller).erase equip)
  update sold buyer (sold buyer ++ [equip])

variable (vs : ℕ → ℕ → List ℕ)

def tradedValues (seller buyer uuid : ℕ) : ℕ → ℕ → List ℕ :=
  let sold := update vs seller (update (vs seller) uuid [])
  update sold buyer (update (sold buyer) uuid (sold buyer uuid ++ vs seller uuid))

structure Traded (w w' : EquipMemory) (seller buyer equip uuid : ℕ) (xs : ℕ → List ℕ) (vs : ℕ → ℕ → List ℕ) : Prop where
  sets : ∀ pid, pid = seller ∨ pid = buyer →
    Coherent w' pid (tradedList xs seller buyer equip pid) (tradedValues vs seller buyer uuid pid)
  bought : (w'.set buyer).m uuid = some equip ∧ equip ∈ tradedList xs seller buyer equip buyer
  sold : seller ≠ buyer → (∀ u, (w'.set seller).m u ≠ some equip) ∧ equip ∉ tradedList xs seller buyer equip seller ∧
    (w'.set seller).values uuid = none ∧
    ∀ hero arr i, (w'.set seller).fightFormation hero = some arr → arr i ≠ some equip
  equips : w'.equip = update w.equip equip { w.equip equip with pid := buyer }
  values : w'.value = fun v => if v ∈ vs seller uuid then { w.value v with pid := buyer } else w.value v
  maps : ∀ pid u, u ≠ uuid → (w'.set pid).m u = (w.set pid).m u
  formations : ∀ pid, (w'.set pid).fightFormation = (w.set pid).fightFormation
  others : ∀ pid xs vs, pid ≠ seller → pid ≠ buyer → Coherent w pid xs vs → Coherent w' pid xs vs

/-! ## Values that are moved -/

section Values
variable {w : EquipMemory} {buyer u cur : ℕ} {dst rest : List ℕ}

namespace EquipMemory

/-- The memory with other values: their links, their owner, and the head of the buyer's list under `u`. -/
def withValues (w : EquipMemory) (buyer u : ℕ) (h : DHeap) (moved : List ℕ) (head : Option ℕ) : EquipMemory :=
  { w with
    valueLinks := h
    value := fun v => if v ∈ moved then { w.value v with pid := buyer } else w.value v
    set := update w.set buyer { w.set buyer with values := update (w.set buyer).values u head } }

theorem withValues_none (h : DHeap) (hhead : (w.set buyer).values u = dst.head?) :
    w.withValues buyer u h [] dst.head? = { w with valueLinks := h } := by
  unfold withValues
  rw [← hhead, update_eq_self, update_eq_self]
  simp only [not_mem_nil, if_false]

theorem withValues_withValues (h h' : DHeap) (moved moved' : List ℕ) (head head' : Option ℕ) :
    (w.withValues buyer u h moved head).withValues buyer u h' moved' head' =
      w.withValues buyer u h' (moved ++ moved') head' := by
  unfold withValues
  simp only [update_self, update_idem, mem_append]
  congr 1
  funext v
  by_cases h1 : v ∈ moved
  · by_cases h2 : v ∈ moved'
    · simp only [h1, h2, if_true, or_self]
    · simp only [h1, h2, if_true, if_false, or_false]
  · by_cases h2 : v ∈ moved'
    · simp only [h1, h2, if_true, if_false, or_true]
    · simp only [h1, h2, if_false, or_self]

theorem changeValuePid_value (w : EquipMemory) (cur buyer : ℕ) :
    (w.changeValuePid cur buyer).value = fun v => if v ∈ [cur] then { w.value v with pid := buyer } else w.value v := by
  funext v
  by_cases hv : v = cur
  · subst hv
    simp only [changeValuePid, update_self, mem_singleton, if_true]
  · simp only [changeValuePid, update_of_ne hv, mem_singleton, hv, if_false]

theorem bringValue_ok {h : DHeap} (hcur : (w.value cur).uid = u) (hdst : ∀ v ∈ dst, (w.value v).uid = u)
    (halive : ∀ v ∈ dst, w.valueLinks.alive v = true) (hhead : (w.set buyer).values u = dst.head?)
    (hins : dlistInsertTail w.valueLinks dst.head? cur = .ok (h, (dst ++ [cur]).head?)) :
    (w.changeValuePid cur buyer).bringValue buyer cur = .ok (w.withValues buyer u h [cur] (dst ++ [cur]).head?) := by
  have huid : ((w.changeValuePid cur buyer).value cur).uid = u := by
    rw [changeValuePid_value]
    simpa using hcur
  have hheads : ((w.changeValuePid cur buyer).set buyer).values u = dst.head? := hhead
  unfold bringValue
  simp only [huid, hheads]
  cases dst with
  | nil =>
    simp only [List.head?_nil, nil_append, List.head?_cons] at hins ⊢
    have hins' : dlistInsertTail (w.changeValuePid cur buyer).valueLinks none cur = .ok (h, some cur) := hins
    rw [hins', ok_bind, withValues, ← changeValuePid_value]
    rfl
  | cons d ds =>
    simp only [List.head?_cons, cons_append] at hins ⊢
    have hins' : dlistInsertTail (w.changeValuePid cur buyer).valueLinks (some d) cur = .ok (h, some d) := hins
    have hdalive : (w.changeValuePid cur buyer).valueLinks.alive d = true := halive d mem_cons_self
    have hduid : u = ((w.changeValuePid cur buyer).value d).uid := by
      rw [changeValuePid_value]
      simp only
      split
      · exact (hdst d mem_cons_self).symm
      · exact (hdst d mem_cons_self).symm
    rw [DHeap.access_ok hdalive, ok_bind, assert_of (decide_eq_true hduid), ok_bind, hins', ok_bind, withValues,
      ← changeValuePid_value]
    simp only [List.head?_cons] at hhead
    rw [← hhead, update_eq_self, update_eq_self]
    rfl

theorem moveValues_spec {cur : List ℕ} (steps : ℕ) (hsteps : cur.length ≤ steps) (hcur : DRing w.valueLinks cur)
    (hdst : DRing w.valueLinks dst) (hdisj : ∀ v ∈ cur, v ∉ dst) (huid : ∀ v ∈ dst ++ cur, (w.value v).uid = u)
    (hhead : (w.set buyer).values u = dst.head?) :
    ∃ h, moveValues buyer steps w cur.head? = .ok (w.withValues buyer u h cur (dst ++ cur).head?) ∧
      DRing h (dst ++ cur) ∧ h.alive = w.valueLinks.alive ∧
      ∀ v, v ∉ cur → v ∉ dst → h.next v = w.valueLinks.next v ∧ h.prev v = w.valueLinks.prev v := by
  induction cur generalizing w dst steps with
  | nil =>
    refine ⟨w.valueLinks, ?_, ?_, rfl, fun v _ _ => ⟨rfl, rfl⟩⟩
    · rw [append_nil, withValues_none _ hhead]
      cases steps with
      | zero => rfl
      | succ steps => rfl
    · rw [append_nil]
      exact hdst
  | cons c rest ih =>
    obtain ⟨steps, rfl⟩ := exists_succ_of_lt hsteps
    obtain ⟨h₁, h₂, hrem, hins, halive₁, hrest, hring, halive₂, hframe⟩ := dlist_requeue hcur hdst hdisj
    have hc : c ∉ rest := (nodup_cons.mp hcur.nodup).1
    have hbring := @bringValue_ok { w with valueLinks := h₁ } buyer u c dst h₂
      (huid c (mem_append_right _ mem_cons_self)) (fun v hv => huid v (mem_append_left _ hv))
      (fun v hv => by rw [halive₁]; exact hdst.alive v hv) hhead hins
    have hdisj' : ∀ v ∈ rest, v ∉ dst ++ [c] := by
      intro v hv hmem
      cases mem_append.mp hmem with
      | inl hmem => exact hdisj v (mem_cons_of_mem c hv) hmem
      | inr hmem => exact hc (mem_singleton.mp hmem ▸ hv)
    have huid' : ∀ v ∈ (dst ++ [c]) ++ rest,
        ((w.withValues buyer u h₂ [c] (dst ++ [c]).head?).value v).uid = u := by
      intro v hv
      rw [append_assoc] at hv
      simp only [withValues]
      split
      · exact huid v hv
      · exact huid v hv
    have hhead' : ((w.withValues buyer u h₂ [c] (dst ++ [c]).head?).set buyer).values u = (dst ++ [c]).head? := by
      simp only [withValues, update_self]
    obtain ⟨h, hmove, hring', halive', hframe'⟩ := ih steps (by simpa using hsteps) hrest hring hdisj' huid' hhead'
    refine ⟨h, ?_, ?_, halive'.trans halive₂, fun v hv hvd => ?_⟩
    · rw [List.head?_cons, moveValues, hrem, ok_bind]
      simp only
      rw [hbring, ok_bind]
      refine hmove.trans ?_
      rw [withValues_withValues, append_assoc]
      rfl
    · rwa [append_assoc] at hring'
    · have hvc : v ≠ c := fun he => hv (he ▸ mem_cons_self)
      have hvrest : v ∉ rest := fun hmem => hv (mem_cons_of_mem c hmem)
      have hvdst : v ∉ dst ++ [c] := by
        rw [mem_append, mem_singleton]
        exact fun hmem => hmem.elim hvd hvc
      have h1 := hframe v hv hvd
      have h2 := hframe' v hvrest hvdst
      exact ⟨h2.1.trans h1.1, h2.2.trans h1.2⟩

end EquipMemory

end Values

/-! ## Sets before and after -/

section Sets
variable {w w' : EquipMemory} {pid seller buyer equip u : ℕ} {xs ys zs : List ℕ} {vs : ℕ → List ℕ}

theorem Coherent.congr (h : Coherent w pid xs vs) (hset : w'.set pid = w.set pid) (hequip : ∀ p ∈ xs, w'.equip p = w.equip p)
    (hlinks : ∀ p ∈ xs, w'.links.alive p = w.links.alive p ∧ w'.links.next p = w.links.next p ∧
      w'.links.prev p = w.links.prev p)
    (hvalue : ∀ u, ∀ v ∈ vs u, w'.value v = w.value v)
    (hvalueLinks : ∀ u, ∀ v ∈ vs u, w'.valueLinks.alive v = w.valueLinks.alive v ∧
      w'.valueLinks.next v = w.valueLinks.next v ∧ w'.valueLinks.prev v = w.valueLinks.prev v) :
    Coherent w' pid xs vs where
  ring := h.ring.congr hlinks
  list := by
    rw [hset]
    exact h.list
  index := by
    intro u p
    rw [hset, h.index]
    constructor
    · intro hp
      exact ⟨hp.1, by rw [hequip p hp.1]; exact hp.2⟩
    · intro hp
      exact ⟨hp.1, by rw [← hequip p hp.1]; exact hp.2⟩
  owner := by
    intro p hp
    rw [hequip p hp]
    exact h.owner p hp
  worn := by
    intro hero arr i p harr hi
    rw [hset] at harr
    obtain ⟨hp, hplace⟩ := h.worn hero arr i p harr hi
    exact ⟨hp, by rw [hequip p hp]; exact hplace⟩
  valueRing := fun u => (h.valueRing u).congr (hvalueLinks u)
  heads := by
    intro u
    rw [hset]
    exact h.heads u
  uid := by
    intro u v hv
    rw [hvalue u v hv]
    exact h.uid u v hv

def EquipMemory.without (w : EquipMemory) (seller u : ℕ) (h : DHeap) (list : Option ℕ) : EquipMemory :=
  { w with links := h }.setOf seller
    { w.set seller with
      m := update (w.set seller).m u none
      list := list
      values := update (w.set seller).values u none }

theorem takeOut_ok (h : Coherent w seller (ys ++ equip :: zs) vs) (hplace : (w.equip equip).placeholder = 0)
    (hu : (w.equip equip).uuid = u) :
    ∃ h', w.takeOut seller equip = .ok (w.without seller u h' (ys ++ zs).head?, (vs u).head?) ∧
      Coherent (w.without seller u h' (ys ++ zs).head?) seller (ys ++ zs) (update vs u []) ∧
      (∀ pid xs' vs', pid ≠ seller → Coherent w pid xs' vs' →
        Coherent (w.without seller u h' (ys ++ zs).head?) pid xs' vs') ∧
      h'.alive equip = true ∧ h'.next equip = none ∧ h'.prev equip = none := by
  obtain ⟨h', hrem, hring, halive, hnull, hframe⟩ := dlistRemove_own h.ring
  have hmem : equip ∈ ys ++ equip :: zs := mem_append_right _ mem_cons_self
  have hmap : (w.set seller).m u = some equip := (h.index u equip).mpr ⟨hmem, hu⟩
  have hother : ∀ p, p ∈ ys ++ zs ↔ p ≠ equip ∧ p ∈ ys ++ equip :: zs := fun p => h.ring.mem_without
  refine ⟨h', ?_, ?_, ?_, ?_⟩
  · unfold EquipMemory.takeOut
    simp only [hu, hmap, isSome_some, assert_true, ok_bind, h.list, hrem, h.heads u]
    rfl
  · constructor
    case ring => exact hring
    case list => simp only [EquipMemory.without, EquipMemory.setOf, update_self]
    case index =>
      intro u' p
      simp only [EquipMemory.without, EquipMemory.setOf, update_self]
      by_cases hu' : u' = u
      · rw [hu', update_self]
        constructor
        · intro hnone
          cases hnone
        · intro hp
          have hsame := (h.index u p).mpr ⟨((hother p).mp hp.1).2, hp.2⟩
          rw [hmap] at hsame
          exact absurd (some.inj hsame).symm ((hother p).mp hp.1).1
      · rw [update_of_ne hu', h.index, hother]
        constructor
        · intro hp
          refine ⟨⟨?_, hp.1⟩, hp.2⟩
          intro he
          exact hu' (hp.2.symm.trans ((congrArg (fun q => (w.equip q).uuid) he).trans hu))
        · intro hp
          exact ⟨hp.1.2, hp.2⟩
    case owner => exact fun p hp => h.owner p ((hother p).mp hp).2
    case worn =>
      intro hero arr i p harr hi
      simp only [EquipMemory.without, EquipMemory.setOf, update_self] at harr
      obtain ⟨hp, hworn⟩ := h.worn hero arr i p harr hi
      refine ⟨(hother p).mpr ⟨?_, hp⟩, hworn⟩
      intro he
      exact hworn (he ▸ hplace)
    case valueRing =>
      intro u'
      by_cases hu' : u' = u
      · rw [hu', update_self]
        exact dring_nil
      · rw [update_of_ne hu']
        exact h.valueRing u'
    case heads =>
      intro u'
      simp only [EquipMemory.without, EquipMemory.setOf, update_self]
      by_cases hu' : u' = u
      · rw [hu', update_self, update_self]
        rfl
      · rw [update_of_ne hu', update_of_ne hu']
        exact h.heads u'
    case uid =>
      intro u' v hv
      by_cases hu' : u' = u
      · rw [hu', update_self] at hv
        exact absurd hv not_mem_nil
      · rw [update_of_ne hu'] at hv
        exact h.uid u' v hv
  · intro pid xs' vs' hpid hc
    apply hc.congr
    · simp only [EquipMemory.without, EquipMemory.setOf, update_of_ne hpid]
    · exact fun p _ => rfl
    · intro p hp
      have hout : p ∉ ys ++ equip :: zs := fun hmem => hpid ((hc.owner p hp).symm.trans (h.owner p hmem))
      exact ⟨congrFun halive p, hframe p hout⟩
    · exact fun _ _ _ => rfl
    · exact fun _ _ _ => ⟨rfl, rfl, rfl⟩
  · exact ⟨(congrFun halive equip).trans (h.ring.alive equip hmem), hnull⟩

theorem moved_ok {cur : List ℕ} (h : Coherent w buyer xs vs) (hcur : DRing w.valueLinks cur) (hdisj : ∀ v ∈ cur, v ∉ vs u)
    (huid : ∀ v ∈ cur, (w.value v).uid = u) {steps : ℕ} (hsteps : cur.length ≤ steps) :
    ∃ h', EquipMemory.moveValues buyer steps w cur.head? = .ok (w.withValues buyer u h' cur (vs u ++ cur).head?) ∧
      Coherent (w.withValues buyer u h' cur (vs u ++ cur).head?) buyer xs (update vs u (vs u ++ cur)) ∧
      ∀ pid xs' vs', pid ≠ buyer → (∀ u', ∀ v ∈ vs' u', v ∉ cur) → Coherent w pid xs' vs' →
        Coherent (w.withValues buyer u h' cur (vs u ++ cur).head?) pid xs' vs' := by
  have hall : ∀ v ∈ vs u ++ cur, (w.value v).uid = u := by
    intro v hv
    cases mem_append.mp hv with
    | inl hv => exact (h.uid u v hv).1
    | inr hv => exact huid v hv
  obtain ⟨h', hmove, hring, halive, hframe⟩ :=
    EquipMemory.moveValues_spec steps hsteps hcur (h.valueRing u) hdisj hall (h.heads u)
  -- the values under another uuid are in neither of the two lists
  have hfar : ∀ u', u' ≠ u → ∀ v ∈ vs u', v ∉ cur ∧ v ∉ vs u := by
    intro u' hu' v hv
    have hv' := (h.uid u' v hv).1
    exact ⟨fun hc => hu' (hv'.symm.trans (huid v hc)), fun hd => hu' (hv'.symm.trans (h.uid u v hd).1)⟩
  refine ⟨h', hmove, ⟨h.ring, ?_, ?_, h.owner, ?_, ?_, ?_, ?_⟩, ?_⟩
  · simp only [EquipMemory.withValues, update_self]
    exact h.list
  · intro u' p
    simp only [EquipMemory.withValues, update_self]
    exact h.index u' p
  · intro hero arr i p harr hi
    simp only [EquipMemory.withValues, update_self] at harr
    exact h.worn hero arr i p harr hi
  · intro u'
    by_cases hu' : u' = u
    · rw [hu', update_self]
      exact hring
    · rw [update_of_ne hu']
      apply (h.valueRing u').congr
      intro v hv
      have hout := hfar u' hu' v hv
      exact ⟨congrFun halive v, hframe v hout.1 hout.2⟩
  · intro u'
    simp only [EquipMemory.withValues, update_self]
    by_cases hu' : u' = u
    · rw [hu', update_self, update_self]
    · rw [update_of_ne hu', update_of_ne hu']
      exact h.heads u'
  · intro u' v hv
    by_cases hu' : u' = u
    · rw [hu', update_self] at hv
      simp only [EquipMemory.withValues]
      split
      case isTrue => exact ⟨hu' ▸ hall v hv, rfl⟩
      case isFalse hc => exact ⟨hu' ▸ hall v hv, (h.uid u v ((mem_append.mp hv).resolve_right hc)).2⟩
    · rw [update_of_ne hu'] at hv
      simp only [EquipMemory.withValues, if_neg (hfar u' hu' v hv).1]
      exact h.uid u' v hv
  · intro pid xs' vs' hpid hout hc
    apply hc.congr
    · simp only [EquipMemory.withValues, update_of_ne hpid]
    · exact fun _ _ => rfl
    · exact fun _ _ => ⟨rfl, rfl, rfl⟩
    · intro u' v hv
      simp only [EquipMemory.withValues, if_neg (hout u' v hv)]
    · intro u' v hv
      have hvs : v ∉ vs u := fun hmem => hpid ((hc.uid u' v hv).2.symm.trans (h.uid u v hmem).2)
      exact ⟨congrFun halive v, hframe v (hout u' v hv) hvs⟩

def EquipMemory.withEquip (w : EquipMemory) (buyer equip : ℕ) (h : DHeap) (list : Option ℕ) : EquipMemory :=
  { w.changePid equip buyer with links := h }.setOf buyer
    { w.set buyer with
      m := update (w.set buyer).m (w.equip equip).uuid (some equip)
      list := list }

theorem bringIn_ok (h : Coherent w buyer xs vs) (hnot : equip ∉ xs) (halive : w.links.alive equip = true)
    (hnull : w.links.next equip = none ∧ w.links.prev equip = none) (hu : (w.equip equip).uuid = u)
    (huuid : ∀ p ∈ xs, (w.equip p).uuid ≠ u) :
    ∃ h', (w.setGid equip 0).bringIn buyer equip =
        .ok ((w.withEquip buyer equip h' (xs ++ [equip]).head?).setGid equip 0) ∧
      Coherent (w.withEquip buyer equip h' (xs ++ [equip]).head?) buyer (xs ++ [equip]) vs ∧
      ∀ pid xs' vs', pid ≠ buyer → equip ∉ xs' → Coherent w pid xs' vs' →
        Coherent (w.withEquip buyer equip h' (xs ++ [equip]).head?) pid xs' vs' := by
  obtain ⟨h', hins, hring, halive', hframe⟩ := dlistInsertTail_ok h.ring hnot halive hnull
  have hsame : ∀ h' list p, p ≠ equip → (w.withEquip buyer equip h' list).equip p = w.equip p := by
    intro h' list p hp
    simp only [EquipMemory.withEquip, EquipMemory.setOf, EquipMemory.changePid, update_of_ne hp]
  have hown : ∀ h' list, (w.withEquip buyer equip h' list).equip equip = { w.equip equip with pid := buyer } := by
    intro h' list
    simp only [EquipMemory.withEquip, EquipMemory.setOf, EquipMemory.changePid, update_self]
  have hne : ∀ p ∈ xs, p ≠ equip := fun p hp he => hnot (he ▸ hp)
  refine ⟨h', ?_, ⟨hring, ?_, ?_, ?_, ?_, h.valueRing, ?_, h.uid⟩, ?_⟩
  · have hinit : dlistInit (w.setGid equip 0).links equip = w.links := dlistInit_of_null hnull
    have hlist : ((w.setGid equip 0).set buyer).list = xs.head? := h.list
    unfold EquipMemory.bringIn
    simp only [EquipMemory.changePid] at hinit hlist ⊢
    rw [hinit, hlist, hins, ok_bind]
    simp only [EquipMemory.setGid, EquipMemory.withEquip, EquipMemory.changePid, EquipMemory.setOf, update_self,
      update_idem, pure_eq_ok]
  · simp only [EquipMemory.withEquip, EquipMemory.setOf, update_self]
  · intro u' p
    have huuids : ((w.withEquip buyer equip h' (xs ++ [equip]).head?).equip p).uuid = (w.equip p).uuid := by
      by_cases hp : p = equip
      · rw [hp, hown]
      · rw [hsame _ _ p hp]
    rw [huuids]
    simp only [EquipMemory.withEquip, EquipMemory.setOf, update_self, hu, mem_append, mem_singleton]
    by_cases hu' : u' = u
    · rw [hu', update_self]
      constructor
      · intro hp
        rw [← some.inj hp]
        exact ⟨.inr rfl, hu⟩
      · intro hp
        rw [hp.1.resolve_left fun hmem => huuid p hmem hp.2]
    · rw [update_of_ne hu', h.index]
      constructor
      · intro hp
        exact ⟨.inl hp.1, hp.2⟩
      · intro hp
        refine ⟨hp.1.resolve_right fun he => ?_, hp.2⟩
        rw [he, hu] at hp
        exact hu' hp.2.symm
  · intro p hp
    cases mem_append.mp hp with
    | inl hp =>
      rw [hsame _ _ p (hne p hp)]
      exact h.owner p hp
    | inr hp => rw [mem_singleton.mp hp, hown]
  · intro hero arr i p harr hi
    simp only [EquipMemory.withEquip, EquipMemory.setOf, update_self] at harr
    obtain ⟨hp, hworn⟩ := h.worn hero arr i p harr hi
    rw [hsame _ _ p (hne p hp)]
    exact ⟨mem_append_left _ hp, hworn⟩
  · intro u'
    simp only [EquipMemory.withEquip, EquipMemory.setOf, update_self]
    exact h.heads u'
  · intro pid xs' vs' hpid hout hc
    apply hc.congr
    · simp only [EquipMemory.withEquip, EquipMemory.setOf, update_of_ne hpid]
      rfl
    · exact fun p hp => hsame _ _ p fun he => hout (he ▸ hp)
    · intro p hp
      have hxs : p ∉ xs := fun hmem => hpid ((hc.owner p hp).symm.trans (h.owner p hmem))
      exact ⟨congrFun halive' p, hframe p hxs fun he => hout (he ▸ hp)⟩
    · exact fun _ _ _ => rfl
    · exact fun _ _ _ => ⟨rfl, rfl, rfl⟩

end Sets

/-! ## Trades -/

theorem EquipMemory.setGid_back (w : EquipMemory) {equip : ℕ} {gid : ℤ} (gid' : ℤ) (h : gid = (w.equip equip).gid) :
    (w.setGid equip gid').setGid equip gid = w := by
  simp only [setGid, update_self, update_idem, h, update_eq_self]

theorem without_set (w : EquipMemory) (seller u : ℕ) (h : DHeap) (list : Option ℕ) (pid : ℕ) :
    (∀ u', u' ≠ u → ((w.without seller u h list).set pid).m u' = (w.set pid).m u') ∧
      ((w.without seller u h list).set pid).fightFormation = (w.set pid).fightFormation := by
  by_cases hp : pid = seller
  · simp only [EquipMemory.without, EquipMemory.setOf, hp, update_self, and_true]
    exact fun u' hu' => update_of_ne hu' _ _
  · simp only [EquipMemory.without, EquipMemory.setOf, update_of_ne hp, implies_true, and_self]

theorem withValues_set (w : EquipMemory) (buyer u : ℕ) (h : DHeap) (moved : List ℕ) (head : Option ℕ) (pid : ℕ) :
    ((w.withValues buyer u h moved head).set pid).m = (w.set pid).m ∧
      ((w.withValues buyer u h moved head).set pid).fightFormation = (w.set pid).fightFormation := by
  by_cases hp : pid = buyer
  · simp only [EquipMemory.withValues, hp, update_self, and_self]
  · simp only [EquipMemory.withValues, update_of_ne hp, and_self]

theorem withEquip_set (w : EquipMemory) (buyer equip : ℕ) (h : DHeap) (list : Option ℕ) (pid : ℕ) :
    (∀ u', u' ≠ (w.equip equip).uuid → ((w.withEquip buyer equip h list).set pid).m u' = (w.set pid).m u') ∧
      ((w.withEquip buyer equip h list).set pid).fightFormation = (w.set pid).fightFormation := by
  by_cases hp : pid = buyer
  · simp only [EquipMemory.withEquip, EquipMemory.setOf, hp, update_self, and_true]
    exact fun u' hu' => update_of_ne hu' _ _
  · simp only [EquipMemory.withEquip, EquipMemory.setOf, update_of_ne hp, EquipMemory.changePid, implies_true,
      and_self]

section Trades
variable {w : EquipMemory} {seller buyer equip u : ℕ} {xs : ℕ → List ℕ} {vs : ℕ → ℕ → List ℕ}

theorem traded_ok (hs : Coherent w seller (xs seller) (vs seller)) (hb : Coherent w buyer (xs buyer) (vs buyer))
    (huuid : ∀ p ∈ xs seller, ∀ q ∈ xs buyer, (w.equip p).uuid = (w.equip q).uuid → p = q) (he : equip ∈ xs seller)
    (hu : (w.equip equip).uuid = u) (hplace : (w.equip equip).placeholder = 0) {steps : ℕ}
    (hsteps : (vs seller u).length ≤ steps) :
    ∃ r w₁ w₂ w', w.takeOut seller equip = .ok r ∧ EquipMemory.moveValues buyer steps r.1 r.2 = .ok w₁ ∧
      (w₁.setGid equip 0).bringIn buyer equip = .ok w₂ ∧ w₂.setGid equip (w₁.equip equip).gid = w' ∧
      Traded w w' seller buyer equip u xs vs := by
  obtain ⟨ys, zs, hsplit⟩ := append_of_mem he
  have hs' := hs
  rw [hsplit] at hs'
  have hequipys : equip ∉ ys ++ zs := fun hmem => ((hs'.ring.mem_without).mp hmem).1 rfl
  have herase : (xs seller).erase equip = ys ++ zs := by
    rw [hsplit, erase_append_right _ fun hy => hequipys (mem_append_left _ hy), erase_cons_head]
  obtain ⟨h₀, htake, hsold, hkeep, hfree⟩ := takeOut_ok hs' hplace hu
  generalize hw₀ : w.without seller u h₀ (ys ++ zs).head? = sold at htake hsold hkeep
  -- what both have while the equip and its values are in no set
  generalize hxs₁ : update xs seller ((xs seller).erase equip) = xs₁
  generalize hvs₁ : update vs seller (update (vs seller) u []) = vs₁
  have hseller : xs₁ seller = ys ++ zs ∧ vs₁ seller = update (vs seller) u [] := by
    rw [← hxs₁, ← hvs₁, update_self, update_self]
    exact ⟨herase, rfl⟩
  have hbuyer : buyer ≠ seller → xs₁ buyer = xs buyer ∧ vs₁ buyer = vs buyer := by
    intro hne
    rw [← hxs₁, ← hvs₁, update_of_ne hne, update_of_ne hne]
    exact ⟨rfl, rfl⟩
  have hmid : Coherent sold seller (xs₁ seller) (vs₁ seller) := by
    rw [hseller.1, hseller.2]
    exact hsold
  have hmidb : Coherent sold buyer (xs₁ buyer) (vs₁ buyer) := by
    by_cases hne : buyer = seller
    · rw [hne]
      exact hmid
    · rw [(hbuyer hne).1, (hbuyer hne).2]
      exact hkeep buyer _ _ hne hb
  have hnot : equip ∉ xs₁ buyer := by
    by_cases hne : buyer = seller
    · rw [hne, hseller.1]
      exact hequipys
    · rw [(hbuyer hne).1]
      exact fun hmem => hne ((hb.owner equip hmem).symm.trans (hs.owner equip he))
  have houtseller : ∀ u', ∀ v ∈ vs₁ seller u', v ∉ vs seller u := by
    intro u' v hv hmem
    rw [hseller.2] at hv
    by_cases hu' : u' = u
    · rw [hu', update_self] at hv
      exact not_mem_nil hv
    · rw [update_of_ne hu'] at hv
      exact hu' ((hs.uid u' v hv).1.symm.trans (hs.uid u v hmem).1)
  have houtbuyer : ∀ u', ∀ v ∈ vs₁ buyer u', v ∉ vs seller u := by
    by_cases hne : buyer = seller
    · rw [hne]
      exact houtseller
    · intro u' v hv hmem
      rw [(hbuyer hne).2] at hv
      exact hne ((hb.uid u' v hv).2.symm.trans (hs.uid u v hmem).2)
  have hcur : DRing sold.valueLinks (vs seller u) := by
    rw [← hw₀]
    exact hs.valueRing u
  have hcuruid : ∀ v ∈ vs seller u, (sold.value v).uid = u := by
    rw [← hw₀]
    exact fun v hv => (hs.uid u v hv).1
  obtain ⟨h₁, hmove, hmoved, hkeep₁⟩ :=
    moved_ok hmidb hcur (fun v hv hmem => houtbuyer u v hmem hv) hcuruid hsteps
  generalize hw₁ : sold.withValues buyer u h₁ (vs seller u) (vs₁ buyer u ++ vs seller u).head? = w₁ at hmove hmoved hkeep₁
  have hequip₁ : w₁.equip = w.equip := by
    rw [← hw₁, ← hw₀]
    rfl
  have huuid₁ : ∀ p ∈ xs₁ buyer, (w₁.equip p).uuid ≠ u := by
    intro p hp hpu
    have hpb : p ∈ xs buyer := by
      by_cases hne : buyer = seller
      · rw [hne, hseller.1] at hp
        rw [hne, hsplit]
        exact ((hs'.ring.mem_without).mp hp).2
      · rw [(hbuyer hne).1] at hp
        exact hp
    rw [hequip₁] at hpu
    exact hnot (huuid equip he p hpb (hu.trans hpu.symm) ▸ hp)
  have hfree₁ : w₁.links.alive equip = true ∧ w₁.links.next equip = none ∧ w₁.links.prev equip = none := by
    rw [← hw₁, ← hw₀]
    exact hfree
  have hu₁ : (w₁.equip equip).uuid = u := by
    rw [hequip₁]
    exact hu
  obtain ⟨h₂, hbring, hbrought, hkeep₂⟩ := bringIn_ok hmoved hnot hfree₁.1 hfree₁.2 hu₁ huuid₁
  generalize hw' : w₁.withEquip buyer equip h₂ (xs₁ buyer ++ [equip]).head? = w' at hbring hbrought hkeep₂
  have hown : w'.equip = update w.equip equip { w.equip equip with pid := buyer } := by
    rw [← hw', ← hequip₁]
    rfl
  have hlist : tradedList xs seller buyer equip = update xs₁ buyer (xs₁ buyer ++ [equip]) := by
    rw [← hxs₁]
    rfl
  have hvalues : tradedValues vs seller buyer u =
      update vs₁ buyer (update (vs₁ buyer) u (vs₁ buyer u ++ vs seller u)) := by
    rw [← hvs₁]
    rfl
  have hkept : seller ≠ buyer → Coherent w' seller (xs₁ seller) (vs₁ seller) := by
    intro hne
    rw [hseller.1]
    apply hkeep₂ seller _ _ hne hequipys
    rw [← hseller.1]
    exact hkeep₁ seller _ _ hne houtseller hmid
  have hset : ∀ pid, (∀ u', u' ≠ u → (w'.set pid).m u' = (w.set pid).m u') ∧
      (w'.set pid).fightFormation = (w.set pid).fightFormation := by
    intro pid
    have hset₀ := without_set w seller u h₀ (ys ++ zs).head? pid
    have hset₁ := withValues_set sold buyer u h₁ (vs seller u) (vs₁ buyer u ++ vs seller u).head? pid
    have hset₂ := withEquip_set w₁ buyer equip h₂ (xs₁ buyer ++ [equip]).head? pid
    rw [hw₀] at hset₀
    rw [hw₁] at hset₁
    rw [hw', hu₁] at hset₂
    refine ⟨fun u' hu' => ?_, hset₂.2.trans (hset₁.2.trans hset₀.2)⟩
    rw [hset₂.1 u' hu', hset₁.1, hset₀.1 u' hu']
  refine ⟨_, w₁, _, w', htake, hmove, hbring, ?_, ?_, ?_, ?_, hown, ?_, fun pid => (hset pid).1, fun pid => (hset pid).2, ?_⟩
  · apply EquipMemory.setGid_back
    rw [hown, update_self, hequip₁]
  · intro pid hpid
    rw [hlist, hvalues]
    by_cases hne : pid = buyer
    · rw [hne, update_self, update_self]
      exact hbrought
    · rw [update_of_ne hne, update_of_ne hne, hpid.resolve_right hne]
      exact hkept (hpid.resolve_right hne ▸ hne)
  · have hmem : equip ∈ xs₁ buyer ++ [equip] := mem_append_right _ (mem_singleton.mpr rfl)
    rw [hlist, update_self]
    refine ⟨(hbrought.index u equip).mpr ⟨hmem, ?_⟩, hmem⟩
    rw [hown, update_self]
    exact hu
  · intro hne
    have hc := hkept hne
    have hout : equip ∉ xs₁ seller := by
      rw [hseller.1]
      exact hequipys
    rw [hlist, update_of_ne hne]
    refine ⟨fun u' hm => hout ((hc.index u' equip).mp hm).1, hout, ?_, ?_⟩
    · rw [hc.heads u, hseller.2, update_self]
      rfl
    · intro hero arr i harr hi
      exact hout (hc.worn hero arr i equip harr hi).1
  · rw [← hw', ← hw₁, ← hw₀]
    rfl
  · intro pid xs' vs' hps hpb hc
    apply hkeep₂ pid _ _ hpb
    · exact fun hmem => hps ((hc.owner equip hmem).symm.trans (hs.owner equip he))
    · apply hkeep₁ pid _ _ hpb
      · exact fun u' v hv hmem => hps ((hc.uid u' v hv).2.symm.trans (hs.uid u v hmem).2)
      · exact hkeep pid _ _ hps hc

variable (hsets : ∀ pid, pid = seller ∨ pid = buyer → Coherent w pid (xs pid) (vs pid))
  (huuid : ∀ p ∈ xs seller, ∀ q ∈ xs buyer, (w.equip p).uuid = (w.equip q).uuid → p = q) (he : equip ∈ xs seller)
  {steps : ℕ} (hsteps : (vs seller (w.equip equip).uuid).length ≤ steps) (talentCount : ℤ)

include hsets huuid he hsteps

theorem equipTrade_done (htalent : ¬ talentCount > 0) (hloaded : w.loaded seller = true ∧ w.loaded buyer = true)
    (hbag : ¬ ((w.equip equip).heroUuid > 0 ∨ (w.equip equip).placeholder ≠ 0)) :
    ∃ w', w.equipTrade steps talentCount seller buyer equip = .ok (0, w') ∧
      Traded w w' seller buyer equip (w.equip equip).uuid xs vs := by
  have hs := hsets seller (.inl rfl)
  have hplace : (w.equip equip).placeholder = 0 := by
    by_contra hne
    exact hbag (.inr hne)
  obtain ⟨r, w₁, w₂, w', htake, hmove, hbring, hback, htraded⟩ :=
    traded_ok hs (hsets buyer (.inr rfl)) huuid he rfl hplace hsteps
  refine ⟨w', ?_, htraded⟩
  unfold EquipMemory.equipTrade
  rw [DHeap.access_ok (hs.ring.alive equip he), ok_bind, if_neg htalent, hloaded.1, hloaded.2, hs.owner equip he]
  simp only [Bool.true_eq_false, ne_eq, not_true_eq_false, if_false]
  rw [if_neg hbag, htake, ok_bind, hmove, ok_bind, hbring, ok_bind, hback]
  rfl

/-- A trade is refused and leaves all as it is, or the equip and its values are the buyer's, the owner they name has changed, and
nothing else has. -/
theorem equipTrade_conserves : ∃ ret w', w.equipTrade steps talentCount seller buyer equip = .ok (ret, w') ∧
    (ret ≠ 0 ∧ w' = w ∨ ret = 0 ∧ Traded w w' seller buyer equip (w.equip equip).uuid xs vs) := by
  have hs := hsets seller (.inl rfl)
  by_cases hrefused : talentCount > 0 ∨ w.loaded seller = false ∨ w.loaded buyer = false ∨
      (w.equip equip).heroUuid > 0 ∨ (w.equip equip).placeholder ≠ 0
  · refine ⟨-1, w, ?_, .inl ⟨by decide, rfl⟩⟩
    unfold EquipMemory.equipTrade
    rw [DHeap.access_ok (hs.ring.alive equip he), ok_bind]
    by_cases htalent : talentCount > 0
    · rw [if_pos htalent]
      rfl
    · rw [if_neg htalent]
      by_cases hseller : w.loaded seller = false
      · rw [if_pos hseller]
        rfl
      · rw [if_neg hseller]
        by_cases hbuyer : w.loaded buyer = false
        · rw [if_pos hbuyer]
          rfl
        · have hworn := ((hrefused.resolve_left htalent).resolve_left hseller).resolve_left hbuyer
          rw [if_neg hbuyer, hs.owner equip he, if_neg (not_not.mpr rfl), if_pos hworn]
          rfl
  · rw [not_or, not_or, not_or] at hrefused
    obtain ⟨htalent, hseller, hbuyer, hbag⟩ := hrefused
    have hloaded : w.loaded seller = true ∧ w.loaded buyer = true := by simpa using And.intro hseller hbuyer
    obtain ⟨w', htrade, htraded⟩ := equipTrade_done hsets huuid he hsteps talentCount htalent hloaded hbag
    exact ⟨0, w', htrade, .inr ⟨rfl, htraded⟩⟩

end Trades

/-! ## The sets of `Modules.EquipValue` -/

namespace EquipMemory

def ownedEquip (w : EquipMemory) (p : ℕ) : OwnedEquip where
  ptr := p
  pid := (w.equip p).pid
  heroUuid := (w.equip p).heroUuid
  placeholder := (w.equip p).placeholder
  uuid := (w.equip p).uuid
  gid := (w.equip p).gid
  level := (w.equip p).level
  exp := (w.equip p).exp
  affix := (w.equip p).affix

def storedValue (w : EquipMemory) (v : ℕ) : Modules.EquipValue where
  pid := (w.value v).pid
  uid := (w.value v).uid
  type := (w.value v).type
  id := (w.value v).id
  value := (w.value v).value
  paid := 0

def store (w : EquipMemory) (vs : ℕ → ℕ → List ℕ) (pid : ℕ) : EquipStore where
  m := fun u => ((w.set pid).m u).map w.ownedEquip
  values := fun u => (vs pid u).map w.storedValue

end EquipMemory

/-! The values after a trade, under the uuid and under others. -/

theorem tradedValues_other (seller buyer : ℕ) {u u' : ℕ} (hne : u' ≠ u) (pid : ℕ) :
    tradedValues vs seller buyer u pid u' = vs pid u' := by
  have hsold : update vs seller (update (vs seller) u []) pid u' = vs pid u' := by
    by_cases hp : pid = seller
    · rw [hp, update_self, update_of_ne hne]
    · rw [update_of_ne hp]
  unfold tradedValues
  by_cases hp : pid = buyer
  · rw [hp, update_self, update_of_ne hne, ← hp]
    exact hsold
  · rw [update_of_ne hp]
    exact hsold

theorem tradedValues_seller {seller buyer : ℕ} (hne : seller ≠ buyer) (u : ℕ) :
    tradedValues vs seller buyer u seller u = [] := by
  simp only [tradedValues, update_of_ne hne, update_self]

theorem tradedValues_buyer (seller buyer u : ℕ) :
    tradedValues vs seller buyer u buyer u = (if seller = buyer then [] else vs buyer u) ++ vs seller u := by
  simp only [tradedValues, update_self]
  by_cases hne : seller = buyer
  · rw [if_pos hne, ← hne, update_self, update_self]
  · rw [if_neg hne, update_of_ne (Ne.symm hne)]

section Refines
variable {w w' : EquipMemory} {seller buyer equip u : ℕ} {xs : ℕ → List ℕ} {vs : ℕ → ℕ → List ℕ}

theorem Traded.store_other (ht : Traded w w' seller buyer equip u xs vs) (hs : Coherent w seller (xs seller) (vs seller))
    (hu : (w.equip equip).uuid = u) {pid : ℕ} (hc : Coherent w pid (xs pid) (vs pid)) {u' : ℕ} (hne : u' ≠ u) :
    (w'.store (tradedValues vs seller buyer u) pid).m u' = (w.store vs pid).m u' ∧
      (w'.store (tradedValues vs seller buyer u) pid).values u' = (w.store vs pid).values u' := by
  constructor
  · simp only [EquipMemory.store, ht.maps pid u' hne]
    cases hm : (w.set pid).m u' with
    | none => rfl
    | some p =>
      have hp : p ≠ equip := by
        intro he
        have hpu := ((hc.index u' p).mp hm).2
        rw [he, hu] at hpu
        exact hne hpu.symm
      simp only [map_some, EquipMemory.ownedEquip, ht.equips, update_of_ne hp]
  · simp only [EquipMemory.store, tradedValues_other vs seller buyer hne]
    apply map_congr_left
    intro v hv
    have hout : v ∉ vs seller u := fun hmem => hne ((hc.uid u' v hv).1.symm.trans (hs.uid u v hmem).1)
    simp only [EquipMemory.storedValue, ht.values, if_neg hout]

theorem Traded.store_seller (ht : Traded w w' seller buyer equip u xs vs) (hs : Coherent w seller (xs seller) (vs seller))
    (he : equip ∈ xs seller) (hu : (w.equip equip).uuid = u) (hne : seller ≠ buyer) :
    w'.store (tradedValues vs seller buyer u) seller = (w.store vs seller).put u none [] := by
  have hm : (w'.set seller).m u = none := by
    rw [eq_none_iff_forall_ne_some]
    intro p hp
    obtain ⟨hmem, hpu⟩ := ((ht.sets seller (.inl rfl)).index u p).mp hp
    have hpe : p ≠ equip := fun heq => (ht.sold hne).1 u (heq ▸ hp)
    rw [tradedList, update_of_ne hne, update_self] at hmem
    rw [ht.equips, update_of_ne hpe] at hpu
    have hsame := (hs.index u p).mpr ⟨mem_of_mem_erase hmem, hpu⟩
    rw [(hs.index u equip).mpr ⟨he, hu⟩] at hsame
    exact hpe (some.inj hsame).symm
  apply EquipStore.eq_put
  · simp only [EquipMemory.store, hm, map_none]
  · simp only [EquipMemory.store, tradedValues_seller vs hne u, map_nil]
  · exact fun u' hu' => ht.store_other hs hu hs hu'

theorem Traded.store_buyer (ht : Traded w w' seller buyer equip u xs vs) (hs : Coherent w seller (xs seller) (vs seller))
    (hb : Coherent w buyer (xs buyer) (vs buyer)) (hu : (w.equip equip).uuid = u) :
    w'.store (tradedValues vs seller buyer u) buyer = (w.store vs buyer).put u
      (some { w.ownedEquip equip with pid := buyer })
      ((if seller = buyer then [] else (w.store vs buyer).values u) ++
        ((w.store vs seller).values u).map fun v => { v with pid := buyer }) := by
  have hown : w'.ownedEquip equip = { w.ownedEquip equip with pid := buyer } := by
    simp only [EquipMemory.ownedEquip, ht.equips, update_self]
  have hmoved : (vs seller u).map w'.storedValue =
      ((vs seller u).map w.storedValue).map fun v => { v with pid := buyer } := by
    rw [map_map]
    apply map_congr_left
    intro v hv
    simp only [EquipMemory.storedValue, ht.values, if_pos hv, comp_apply]
  have hstayed : (if seller = buyer then [] else vs buyer u).map w'.storedValue =
      if seller = buyer then [] else (vs buyer u).map w.storedValue := by
    by_cases hne : seller = buyer
    · rw [if_pos hne, if_pos hne, map_nil]
    · rw [if_neg hne, if_neg hne]
      apply map_congr_left
      intro v hv
      have hout : v ∉ vs seller u := fun hmem => hne ((hs.uid u v hmem).2.symm.trans (hb.uid u v hv).2)
      simp only [EquipMemory.storedValue, ht.values, if_neg hout]
  apply EquipStore.eq_put
  · simp only [EquipMemory.store, ht.bought.1, map_some, hown]
  · simp only [EquipMemory.store]
    rw [tradedValues_buyer, map_append, hmoved, hstayed]
  · exact fun u' hu' => ht.store_other hs hu hb hu'

theorem Traded.refines (ht : Traded w w' seller buyer equip u xs vs) (hs : Coherent w seller (xs seller) (vs seller))
    (hb : Coherent w buyer (xs buyer) (vs buyer)) (he : equip ∈ xs seller) (hu : (w.equip equip).uuid = u)
    (hbag : ¬ ((w.equip equip).heroUuid > 0 ∨ (w.equip equip).placeholder ≠ 0)) :
    ∃ sets', EquipStore.equipTrade false (w.store vs) seller buyer (w.ownedEquip equip) = .ok (0, sets') ∧
      ∀ pid, pid = seller ∨ pid = buyer → sets' pid = w'.store (tradedValues vs seller buyer u) pid := by
  have howner : (w.ownedEquip equip).pid = seller := hs.owner equip he
  have hbag' : ¬ ((w.ownedEquip equip).heroUuid > 0 ∨ (w.ownedEquip equip).placeholder ≠ 0) := hbag
  have hm : ((w.store vs seller).m (w.ownedEquip equip).uuid).isSome = true := by
    have hmap : (w.set seller).m (w.equip equip).uuid = some equip := (hs.index _ equip).mpr ⟨he, rfl⟩
    simp only [EquipMemory.store, EquipMemory.ownedEquip, hmap, map_some, isSome_some]
  generalize hsold : update (w.store vs) seller ((w.store vs seller).put u none []) = sold
  -- the values under the uuid that the buyer has when the others come
  have hvalues : (sold buyer).values u = if seller = buyer then [] else (w.store vs buyer).values u := by
    rw [← hsold]
    by_cases hne : seller = buyer
    · rw [← hne, update_self, if_pos rfl]
      exact update_self ..
    · rw [update_of_ne (Ne.symm hne), if_neg hne]
  have huids : ∀ pid, Coherent w pid (xs pid) (vs pid) → ∀ v ∈ (w.store vs pid).values u, v.uid = u := by
    intro pid hc v hv
    obtain ⟨a, ha, rfl⟩ := mem_map.mp hv
    exact (hc.uid u a ha).1
  have hdst : ∀ v ∈ (sold buyer).values u, v.uid = u := by
    intro v hv
    rw [hvalues] at hv
    by_cases hne : seller = buyer
    · rw [if_pos hne] at hv
      exact absurd hv not_mem_nil
    · rw [if_neg hne] at hv
      exact huids buyer hb v hv
  have hmove := EquipStore.moveValues_spec buyer u ((w.store vs seller).values u) (sold buyer).values hdst (huids seller hs)
  rw [hvalues] at hmove
  refine ⟨update sold buyer ((sold buyer).put u (some { w.ownedEquip equip with pid := buyer })
    ((if seller = buyer then [] else (w.store vs buyer).values u) ++
      ((w.store vs seller).values u).map fun v => { v with pid := buyer })), ?_, ?_⟩
  · unfold EquipStore.equipTrade
    rw [if_neg (by decide), if_neg (not_not.mpr howner), if_neg hbag', assert_of hm, ok_bind, EquipStore.equipDelete_eq]
    have huuid : (w.ownedEquip equip).uuid = u := hu
    simp only [huuid]
    rw [hsold, hmove, ok_bind]
    rfl
  · intro pid hpid
    by_cases hpb : pid = buyer
    · rw [hpb, update_self, ht.store_buyer hs hb hu]
      apply EquipStore.eq_put
      · exact update_self ..
      · exact update_self ..
      · intro u' hu'
        rw [← hsold]
        by_cases hne : seller = buyer
        · simp only [← hne, update_self, EquipStore.put, update_of_ne hu', and_self]
        · simp only [update_of_ne (Ne.symm hne), EquipStore.put, update_of_ne hu', and_self]
    · have hps := hpid.resolve_right hpb
      rw [update_of_ne hpb, ← hsold, hps, update_self, ht.store_seller hs he hu (hps ▸ hpb)]

end Refines

/-- The trade of pointers and lists does to the sets that are seen in memory what the trade of sets does. -/
theorem equipTrade_refines {w : EquipMemory} {seller buyer equip : ℕ} {xs : ℕ → List ℕ} {vs : ℕ → ℕ → List ℕ}
    (hsets : ∀ pid, pid = seller ∨ pid = buyer → Coherent w pid (xs pid) (vs pid))
    (huuid : ∀ p ∈ xs seller, ∀ q ∈ xs buyer, (w.equip p).uuid = (w.equip q).uuid → p = q) (he : equip ∈ xs seller)
    {steps : ℕ} (hsteps : (vs seller (w.equip equip).uuid).length ≤ steps) (talentCount : ℤ) (htalent : ¬ talentCount > 0)
    (hloaded : w.loaded seller = true ∧ w.loaded buyer = true)
    (hbag : ¬ ((w.equip equip).heroUuid > 0 ∨ (w.equip equip).placeholder ≠ 0)) :
    ∃ w' sets', w.equipTrade steps talentCount seller buyer equip = .ok (0, w') ∧
      EquipStore.equipTrade false (w.store vs) seller buyer (w.ownedEquip equip) = .ok (0, sets') ∧
      ∀ pid, pid = seller ∨ pid = buyer →
        sets' pid = w'.store (tradedValues vs seller buyer (w.equip equip).uuid) pid := by
  obtain ⟨w', htrade, ht⟩ := equipTrade_done hsets huuid he hsteps talentCount htalent hloaded hbag
  obtain ⟨sets', hstore, hsame⟩ := ht.refines (hsets seller (.inl rfl)) (hsets buyer (.inr rfl)) he rfl hbag
  exact ⟨w', sets', htrade, hstore, hsame⟩

/-! ### A trade of an equip with two values -/

def oneEquip : EquipMemory where
  links := ⟨fun a => a = 5, fun a => if a = 5 then some 5 else none, fun a => if a = 5 then some 5 else none⟩
  equip := fun _ => ⟨70, 1, 2001, 0, 0, 0, 1, 0, fun _ => ⟨0, 0, 0⟩, 0⟩
  valueLinks := ⟨fun a => a = 8 ∨ a = 9, fun a => if a = 8 then some 9 else if a = 9 then some 8 else none,
    fun a => if a = 8 then some 9 else if a = 9 then some 8 else none⟩
  value := fun a => if a = 8 then ⟨1, 70, 41, 101, 3⟩ else ⟨1, 70, 41, 102, 1⟩
  loaded := fun _ => true
  set := fun pid =>
    if pid = 1 then ⟨fun u => if u = 70 then some 5 else none, some 5, fun _ => none, fun u => if u = 70 then some 8 else none⟩
    else ⟨fun _ => none, none, fun _ => none, fun _ => none⟩

def oneEquipList (pid : ℕ) : List ℕ := if pid = 1 then [5] else []

def oneEquipValues (pid u : ℕ) : List ℕ := if pid = 1 then if u = 70 then [8, 9] else [] else []

theorem oneEquip_ring : DRing oneEquip.valueLinks [8, 9] := by
  refine ⟨by decide, by decide, ?_, ?_⟩
  · exact isChain_cons_cons.mpr ⟨⟨rfl, rfl⟩, .singleton 9⟩
  · intro a ha b hb
    cases ha
    cases hb
    exact ⟨rfl, rfl⟩

theorem oneEquip_coherent (pid : ℕ) : Coherent oneEquip pid (oneEquipList pid) (oneEquipValues pid) := by
  by_cases hpid : pid = 1
  · subst hpid
    constructor
    case ring =>
      refine ⟨by decide, by decide, .singleton 5, ?_⟩
      intro a ha b hb
      cases ha
      cases hb
      exact ⟨rfl, rfl⟩
    case list => rfl
    case index =>
      intro u p
      have hm : (oneEquip.set 1).m u = if u = 70 then some 5 else none := rfl
      have hlist : oneEquipList 1 = [5] := rfl
      rw [hm, hlist, mem_singleton]
      by_cases hu : u = 70
      · rw [if_pos hu, hu, some.injEq, eq_comm]
        exact ⟨fun hp => ⟨hp, rfl⟩, And.left⟩
      · rw [if_neg hu]
        exact ⟨fun hp => (nomatch hp), fun hp => absurd hp.2.symm hu⟩
    case owner => exact fun _ _ => rfl
    case worn => exact fun _ _ _ _ harr => nomatch harr
    case valueRing =>
      intro u
      by_cases hu : u = 70
      · rw [hu]
        exact oneEquip_ring
      · simp only [oneEquipValues, hu, if_true, if_false]
        exact dring_nil
    case heads =>
      intro u
      by_cases hu : u = 70
      · rw [hu]
        rfl
      · simp only [oneEquip, oneEquipValues, hu, if_true, if_false, List.head?_nil]
    case uid =>
      intro u v hv
      by_cases hu : u = 70
      · subst hu
        have huids : ∀ v ∈ [8, 9], (oneEquip.value v).uid = 70 ∧ (oneEquip.value v).pid = 1 := by decide
        exact huids v hv
      · simp only [oneEquipValues, hu, if_true, if_false, not_mem_nil] at hv
  · have hset : oneEquip.set pid = ⟨fun _ => none, none, fun _ => none, fun _ => none⟩ := if_neg hpid
    have hlist : oneEquipList pid = [] := if_neg hpid
    have hvalues : oneEquipValues pid = fun _ => [] := funext fun _ => if_neg hpid
    rw [hlist, hvalues]
    constructor
    case ring => exact dring_nil
    case list => rw [hset, List.head?_nil]
    case index =>
      intro u p
      rw [hset]
      exact ⟨fun hp => (nomatch hp), fun hp => absurd hp.1 not_mem_nil⟩
    case owner => exact fun _ hp => absurd hp not_mem_nil
    case worn =>
      intro hero arr i p harr
      rw [hset] at harr
      cases harr
    case valueRing => exact fun _ => dring_nil
    case heads =>
      intro u
      rw [hset, List.head?_nil]
    case uid => exact fun _ _ hv => absurd hv not_mem_nil

theorem equipTrade_conserves_two : ∃ w', oneEquip.equipTrade 2 0 1 2 5 = .ok (0, w') ∧
    Traded oneEquip w' 1 2 5 70 oneEquipList oneEquipValues := by
  obtain ⟨ret, w', htrade, hcases⟩ := @equipTrade_conserves oneEquip 1 2 5 oneEquipList oneEquipValues
    (fun pid _ => oneEquip_coherent pid) (fun p _ q hq _ => absurd hq not_mem_nil) (by decide) 2 (by decide) 0
  have hret : (oneEquip.equipTrade 2 0 1 2 5).map Prod.fst = .ok 0 := rfl
  rw [htrade] at hret
  have hzero : ret = 0 := Except.ok.inj hret
  subst hzero
  exact ⟨w', htrade, (hcases.resolve_left fun h => h.1 rfl).2⟩

theorem equipTrade_refines_two : ∃ w' sets', oneEquip.equipTrade 2 0 1 2 5 = .ok (0, w') ∧
    EquipStore.equipTrade false (oneEquip.store oneEquipValues) 1 2 (oneEquip.ownedEquip 5) = .ok (0, sets') ∧
    ∀ pid, pid = 1 ∨ pid = 2 → sets' pid = w'.store (tradedValues oneEquipValues 1 2 70) pid :=
  equipTrade_refines (fun pid _ => oneEquip_coherent pid) (fun _ _ _ hq _ => absurd hq not_mem_nil)
    (by decide : 5 ∈ oneEquipList 1) (by decide) 0 (by decide) ⟨rfl, rfl⟩ (by decide)

/-- The owner that the equip names has changed. -/
theorem equipTrade_pid : (∀ pid, pid = 1 ∨ pid = 2 → Coherent oneEquip pid (oneEquipList pid) (oneEquipValues pid)) ∧
    5 ∈ oneEquipList 1 ∧ ∃ w', oneEquip.equipTrade 2 0 1 2 5 = .ok (0, w') ∧ (w'.equip 5).pid ≠ (oneEquip.equip 5).pid := by
  refine ⟨fun pid _ => oneEquip_coherent pid, by decide, _, rfl, ?_⟩
  decide

end CServer.Modules.EquipTrade
