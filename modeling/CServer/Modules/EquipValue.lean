import CServer.Modules.Equip

/-! # `world/modules/equip.c`: what has been put into an equip

The values of an equip are what its owner gets back for it. They are kept in the owner's set, in a list under the uuid of
the equip, and follow the equip when it is traded. The slots of heroes are those of `Modules.Equip`.
-/
namespace CServer.Modules
open CServer.Lib Function List

/-! ## The code -/

structure EquipAffixInfo where
  id : ℤ
  value : ℤ
  grow : ℤ

structure OwnedEquip extends Equip where
  uuid : ℕ
  gid : ℤ
  level : ℤ
  exp : ℤ
  affix : ℕ → EquipAffixInfo

/-- `paid` is not in the source: how often the value has been paid out. -/
structure EquipValue where
  pid : ℕ
  uid : ℕ
  type : ℤ
  id : ℤ
  value : ℤ
  paid : ℕ

structure EquipStore where
  m : ℕ → Option OwnedEquip
  values : ℕ → List EquipValue

def equipPropertyPool : ℕ := 6

def OwnedEquip.getAffix (equip : OwnedEquip) (index : ℕ) : Option EquipAffixInfo :=
  if 1 ≤ index ∧ index ≤ equipPropertyPool then some (equip.affix index) else none

def OwnedEquip.updateAffix (equip : OwnedEquip) (index : ℕ) (info : EquipAffixInfo) : OwnedEquip :=
  if 1 ≤ index ∧ index ≤ equipPropertyPool then { equip with affix := update equip.affix index info } else equip

def addValue (new : EquipValue) : List EquipValue → List EquipValue
  | [] => [new]
  | cur :: rest =>
    if cur.type = new.type ∧ cur.id = new.id then { cur with value := cur.value + new.value } :: rest
    else cur :: addValue new rest

namespace EquipStore

def equipAddValue (set : EquipStore) (pid : ℕ) (equip : OwnedEquip) (type id value : ℤ) : EquipStore :=
  if type = 0 ∨ id = 0 ∨ value = 0 then set
  else { set with
    values := update set.values equip.uuid
      (addValue ⟨pid, equip.uuid, type, id, value, 0⟩ (set.values equip.uuid)) }

def equipDelete (set : EquipStore) (equip : OwnedEquip) : EquipStore where
  m := update set.m equip.uuid none
  values := update set.values equip.uuid []

def moveValues (buyer : ℕ) : (ℕ → List EquipValue) → List EquipValue → Except Fault (ℕ → List EquipValue)
  | values, [] => .ok values
  | values, cur :: rest => do
    let head := values cur.uid
    assert (head.head?.all fun h => cur.uid = h.uid)
    moveValues buyer (update values cur.uid (head ++ [{ cur with pid := buyer }])) rest

/-- `equip_trade`; `talented` tells whether the equip still has talents. -/
def equipTrade (talented : Bool) (sets : ℕ → EquipStore) (seller buyer : ℕ) (equip : OwnedEquip) :
    Except Fault (ℤ × (ℕ → EquipStore)) :=
  if talented then .ok (-1, sets)
  else if equip.pid ≠ seller then .ok (-1, sets)
  else if equip.heroUuid > 0 ∨ equip.placeholder ≠ 0 then .ok (-1, sets)
  else do
    assert ((sets seller).m equip.uuid).isSome
    let cur := (sets seller).values equip.uuid
    let sets := update sets seller ((sets seller).equipDelete equip)
    let values ← moveValues buyer (sets buyer).values cur
    let m := update (sets buyer).m equip.uuid (some { equip with pid := buyer })
    return (0, update sets buyer ⟨m, values⟩)

end EquipStore

/-! ## The values of an item -/

/-- What the values of a list come to for a type and id. -/
def stored (type id : ℤ) (values : List EquipValue) : ℤ :=
  (values.map fun v => if v.type = type ∧ v.id = id then v.value else 0).sum

theorem stored_cons (type id : ℤ) (v : EquipValue) (values : List EquipValue) :
    stored type id (v :: values) = (if v.type = type ∧ v.id = id then v.value else 0) + stored type id values :=
  sum_cons

theorem stored_addValue (type id : ℤ) (new : EquipValue) (values : List EquipValue) :
    stored type id (addValue new values) =
      stored type id values + if new.type = type ∧ new.id = id then new.value else 0 := by
  induction values with
  | nil => simp [addValue, stored]
  | cons v values ih =>
    rw [addValue]
    split
    case isTrue h =>
      obtain ⟨ht, hi⟩ := h
      rw [stored_cons, stored_cons, ht, hi]
      by_cases he : new.type = type ∧ new.id = id
      · simp only [if_pos he]
        ring
      · simp only [if_neg he]
        ring
    case isFalse =>
      rw [stored_cons, stored_cons, ih]
      ring

theorem addValue_forall {P : EquipValue → Prop} {new : EquipValue} (hnew : P new)
    (hgrow : ∀ v value, P v → P { v with value := value }) (values : List EquipValue) :
    (∀ v ∈ values, P v) → ∀ v ∈ addValue new values, P v := by
  induction values with
  | nil =>
    intro _ v hv
    exact mem_singleton.mp hv ▸ hnew
  | cons cur rest ih =>
    intro h
    have hcur := h cur mem_cons_self
    have hrest : ∀ v ∈ rest, P v := fun v hv => h v (mem_cons_of_mem cur hv)
    rw [addValue]
    split
    · intro v hv
      cases mem_cons.mp hv with
      | inl he => exact he ▸ hgrow cur _ hcur
      | inr hv => exact hrest v hv
    · intro v hv
      cases mem_cons.mp hv with
      | inl he => exact he ▸ hcur
      | inr hv => exact ih hrest v hv

theorem stored_map {f : EquipValue → EquipValue} (hf : ∀ v, (f v).type = v.type ∧ (f v).id = v.id ∧ (f v).value = v.value)
    (type id : ℤ) (values : List EquipValue) : stored type id (values.map f) = stored type id values := by
  unfold stored
  rw [map_map]
  apply congrArg
  apply map_congr_left
  intro v _
  obtain ⟨ht, hi, hv⟩ := hf v
  simp only [comp_apply, ht, hi, hv]

/-! ## Owners -/

namespace EquipStore

variable (set : EquipStore)

def put (u : ℕ) (equip : Option OwnedEquip) (values : List EquipValue) : EquipStore :=
  ⟨update set.m u equip, update set.values u values⟩

theorem put_self (u : ℕ) : set.put u (set.m u) (set.values u) = set := by
  rw [put, update_eq_self, update_eq_self]

theorem eq_put {set set' : EquipStore} {u : ℕ} {equip : Option OwnedEquip} {values : List EquipValue} (hm : set'.m u = equip)
    (hvalues : set'.values u = values) (hother : ∀ w, w ≠ u → set'.m w = set.m w ∧ set'.values w = set.values w) :
    set' = set.put u equip values := by
  have hm' : set'.m = update set.m u equip := by
    funext w
    by_cases hw : w = u
    · rw [hw, update_self, hm]
    · rw [update_of_ne hw, (hother w hw).1]
  have hvalues' : set'.values = update set.values u values := by
    funext w
    by_cases hw : w = u
    · rw [hw, update_self, hvalues]
    · rw [update_of_ne hw, (hother w hw).2]
  rw [put, ← hm', ← hvalues']

theorem equipDelete_eq (equip : OwnedEquip) : set.equipDelete equip = set.put equip.uuid none [] := rfl

theorem equipAddValue_eq (pid : ℕ) (equip : OwnedEquip) (type id value : ℤ) :
    set.equipAddValue pid equip type id value =
      set.put equip.uuid (set.m equip.uuid)
        (if type = 0 ∨ id = 0 ∨ value = 0 then set.values equip.uuid
          else addValue ⟨pid, equip.uuid, type, id, value, 0⟩ (set.values equip.uuid)) := by
  unfold equipAddValue
  split
  · rw [put_self]
  · rw [put, update_eq_self]

end EquipStore

structure OwnedAt (u : ℕ) (m : ℕ → Option OwnedEquip) (values : ℕ → List EquipValue) : Prop where
  held : ∀ p e, m p = some e → e.uuid = u ∧ e.pid = p
  single : ∀ p q, m p ≠ none → m q ≠ none → p = q
  valued : ∀ p, values p ≠ [] → m p ≠ none
  uid : ∀ p, ∀ v ∈ values p, v.uid = u

def Owned (sets : ℕ → EquipStore) : Prop := ∀ u, OwnedAt u (fun p => (sets p).m u) fun p => (sets p).values u

section Owned
variable {sets : ℕ → EquipStore} {pid u : ℕ} {equip : Option OwnedEquip} {values : List EquipValue}

theorem OwnedAt.update {m : ℕ → Option OwnedEquip} {w : ℕ → List EquipValue} (h : OwnedAt u m w)
    (he : ∀ e, equip = some e → e.uuid = u ∧ e.pid = pid) (hno : equip ≠ none → ∀ p, p ≠ pid → m p = none)
    (hv : values ≠ [] → equip ≠ none) (hu : ∀ v ∈ values, v.uid = u) :
    OwnedAt u (update m pid equip) (update w pid values) where
  held := by
    intro p e hm
    by_cases hp : p = pid
    · subst hp
      rw [update_self] at hm
      exact he e hm
    · rw [update_of_ne hp] at hm
      exact h.held p e hm
  single := by
    intro p q hp hq
    by_cases hpp : p = pid
    · by_cases hqp : q = pid
      · exact hpp.trans hqp.symm
      · rw [hpp, update_self] at hp
        rw [update_of_ne hqp] at hq
        exact absurd (hno hp q hqp) hq
    · rw [update_of_ne hpp] at hp
      by_cases hqp : q = pid
      · rw [hqp, update_self] at hq
        exact absurd (hno hq p hpp) hp
      · rw [update_of_ne hqp] at hq
        exact h.single p q hp hq
  valued := by
    intro p hm
    by_cases hp : p = pid
    · subst hp
      rw [update_self] at hm ⊢
      exact hv hm
    · rw [update_of_ne hp] at hm ⊢
      exact h.valued p hm
  uid := by
    intro p v hm
    by_cases hp : p = pid
    · subst hp
      rw [update_self] at hm
      exact hu v hm
    · rw [update_of_ne hp] at hm
      exact h.uid p v hm

theorem m_put (sets : ℕ → EquipStore) (pid u : ℕ) (equip : Option OwnedEquip) (values : List EquipValue) (w : ℕ) :
    (fun p => (update sets pid ((sets pid).put u equip values) p).m w) =
      if w = u then update (fun p => (sets p).m w) pid equip else fun p => (sets p).m w := by
  funext p
  by_cases hp : p = pid
  · subst hp
    rw [update_self, EquipStore.put]
    by_cases hw : w = u
    · subst hw
      simp only [update_self, if_true]
    · simp only [update_of_ne hw, if_neg hw]
  · rw [update_of_ne hp]
    by_cases hw : w = u
    · rw [if_pos hw, update_of_ne hp]
    · rw [if_neg hw]

theorem values_put (sets : ℕ → EquipStore) (pid u : ℕ) (equip : Option OwnedEquip) (values : List EquipValue) (w : ℕ) :
    (fun p => (update sets pid ((sets pid).put u equip values) p).values w) =
      if w = u then update (fun p => (sets p).values w) pid values else fun p => (sets p).values w := by
  funext p
  by_cases hp : p = pid
  · subst hp
    rw [update_self, EquipStore.put]
    by_cases hw : w = u
    · subst hw
      simp only [update_self, if_true]
    · simp only [update_of_ne hw, if_neg hw]
  · rw [update_of_ne hp]
    by_cases hw : w = u
    · rw [if_pos hw, update_of_ne hp]
    · rw [if_neg hw]

theorem m_put_cases (sets : ℕ → EquipStore) (pid u : ℕ) (equip : Option OwnedEquip) (values : List EquipValue) (p w : ℕ) :
    (update sets pid ((sets pid).put u equip values) p).m w = (sets p).m w ∨
      w = u ∧ p = pid ∧ (update sets pid ((sets pid).put u equip values) p).m w = equip := by
  have hput := congrFun (m_put sets pid u equip values w) p
  rw [hput]
  by_cases hw : w = u
  · by_cases hp : p = pid
    · rw [if_pos hw, hp, update_self]
      exact .inr ⟨hw, rfl, rfl⟩
    · rw [if_pos hw, update_of_ne hp]
      exact .inl rfl
  · rw [if_neg hw]
    exact .inl rfl

theorem values_put_cases (sets : ℕ → EquipStore) (pid u : ℕ) (equip : Option OwnedEquip) (values : List EquipValue)
    (p w : ℕ) :
    (update sets pid ((sets pid).put u equip values) p).values w = (sets p).values w ∨
      w = u ∧ p = pid ∧ (update sets pid ((sets pid).put u equip values) p).values w = values := by
  have hput := congrFun (values_put sets pid u equip values w) p
  rw [hput]
  by_cases hw : w = u
  · by_cases hp : p = pid
    · rw [if_pos hw, hp, update_self]
      exact .inr ⟨hw, rfl, rfl⟩
    · rw [if_pos hw, update_of_ne hp]
      exact .inl rfl
  · rw [if_neg hw]
    exact .inl rfl

theorem Owned.put (h : Owned sets) (he : ∀ e, equip = some e → e.uuid = u ∧ e.pid = pid)
    (hno : equip ≠ none → ∀ p, p ≠ pid → (sets p).m u = none) (hv : values ≠ [] → equip ≠ none)
    (hu : ∀ v ∈ values, v.uid = u) : Owned (update sets pid ((sets pid).put u equip values)) := by
  intro w
  rw [m_put, values_put]
  by_cases hw : w = u
  · subst hw
    rw [if_pos rfl, if_pos rfl]
    exact (h w).update he hno hv hu
  · rw [if_neg hw, if_neg hw]
    exact h w

theorem Owned.replace (h : Owned sets) {e e' : OwnedEquip} (hm : (sets pid).m u = some e) (he : e'.uuid = u ∧ e'.pid = pid)
    (hu : ∀ v ∈ values, v.uid = u) : Owned (update sets pid ((sets pid).put u (some e') values)) := by
  refine h.put (fun x hx => Option.some.inj hx ▸ he) (fun _ p hp => ?_) (fun _ => Option.some_ne_none e') hu
  by_contra hne
  exact hp ((h u).single p pid hne (by rw [hm]; exact Option.some_ne_none e))

theorem Owned.delete (h : Owned sets) (pid : ℕ) (e : OwnedEquip) :
    Owned (update sets pid ((sets pid).equipDelete e)) := by
  refine h.put (fun _ hx => nomatch hx) (fun hx => absurd rfl hx) (fun hx => absurd rfl hx) fun _ hx => ?_
  exact absurd hx not_mem_nil

end Owned

/-! ## Trades -/

namespace EquipStore

theorem moveValues_spec (buyer u : ℕ) (cur : List EquipValue) : ∀ values : ℕ → List EquipValue,
    (∀ v ∈ values u, v.uid = u) → (∀ v ∈ cur, v.uid = u) →
      moveValues buyer values cur =
        .ok (update values u (values u ++ cur.map fun v => { v with pid := buyer })) := by
  induction cur with
  | nil =>
    intro values _ _
    rw [map_nil, append_nil, update_eq_self]
    rfl
  | cons c cur ih =>
    intro values hvalues hcur
    obtain rfl : c.uid = u := hcur c mem_cons_self
    have hhead : ((values c.uid).head?.all fun h => decide (c.uid = h.uid)) = true := by
      cases hv : values c.uid with
      | nil => rfl
      | cons h rest =>
        rw [List.head?_cons, Option.all_some]
        refine decide_eq_true (hvalues h ?_).symm
        rw [hv]
        exact mem_cons_self
    have hnext : ∀ v ∈ update values c.uid (values c.uid ++ [{ c with pid := buyer }]) c.uid, v.uid = c.uid := by
      intro v hv
      rw [update_self] at hv
      cases mem_append.mp hv with
      | inl hv => exact hvalues v hv
      | inr hv => rw [mem_singleton.mp hv]
    rw [moveValues, hhead]
    refine (ih _ hnext fun v hv => hcur v (mem_cons_of_mem c hv)).trans ?_
    rw [update_self, update_idem, append_assoc, map_cons, singleton_append]

/-- An equip without talents that is not worn goes from the set of the seller to that of the buyer, with its values. -/
theorem equipTrade_sold {sets : ℕ → EquipStore} (h : Owned sets) {seller : ℕ} (buyer : ℕ) {u : ℕ} {equip : OwnedEquip}
    (hm : (sets seller).m u = some equip) (hworn : ¬ (equip.heroUuid > 0 ∨ equip.placeholder ≠ 0)) :
    ∃ sold, sold = update sets seller ((sets seller).put u none []) ∧ (∀ p, (sold p).m u = none) ∧
      (∀ p, (sold p).values u = []) ∧
      equipTrade false sets seller buyer equip = .ok (0, update sold buyer ((sold buyer).put u
        (some { equip with pid := buyer }) (((sets seller).values u).map fun v => { v with pid := buyer }))) := by
  obtain ⟨rfl, hpid⟩ := (h u).held seller equip hm
  have hassert : ((sets seller).m equip.uuid).isSome = true := by
    rw [hm]
    rfl
  generalize hsold : update sets seller ((sets seller).equipDelete equip) = sold
  have hm' : ∀ p, (sold p).m equip.uuid = none := by
    intro p
    have hput := congrFun (m_put sets seller equip.uuid none [] equip.uuid) p
    rw [if_pos rfl, ← equipDelete_eq, hsold] at hput
    rw [hput]
    by_cases hp : p = seller
    · rw [hp, update_self]
    · rw [update_of_ne hp]
      by_contra hne
      exact hp ((h equip.uuid).single p seller hne (by rw [hm]; exact Option.some_ne_none equip))
  have howned : Owned sold := hsold ▸ h.delete seller equip
  have hv' : ∀ p, (sold p).values equip.uuid = [] := by
    intro p
    by_contra hne
    exact (howned equip.uuid).valued p hne (hm' p)
  refine ⟨sold, hsold.symm, hm', hv', ?_⟩
  have hmove := moveValues_spec buyer equip.uuid ((sets seller).values equip.uuid) (sold buyer).values
    ((howned equip.uuid).uid buyer) ((h equip.uuid).uid seller)
  rw [hv', nil_append] at hmove
  rw [equipTrade, if_neg Bool.false_ne_true, if_neg (not_not.mpr hpid), if_neg hworn, assert_of hassert, ok_bind]
  simp only
  rw [hsold, hmove, ok_bind]
  rfl

theorem equipTrade_spec {sets : ℕ → EquipStore} (h : Owned sets) (talented : Bool) {holder : ℕ} (seller buyer : ℕ) {u : ℕ}
    {equip : OwnedEquip} (hm : (sets holder).m u = some equip) :
    ∃ ret sets', equipTrade talented sets seller buyer equip = .ok (ret, sets') ∧
      (sets' = sets ∨ equip.uuid = u ∧ holder = seller ∧ ∃ sold, sold = update sets seller ((sets seller).put u none []) ∧
        (∀ p, (sold p).m u = none) ∧ (∀ p, (sold p).values u = []) ∧
        sets' = update sold buyer ((sold buyer).put u (some { equip with pid := buyer })
          (((sets seller).values u).map fun v => { v with pid := buyer }))) := by
  obtain ⟨hu, hpid⟩ := (h u).held holder equip hm
  cases talented with
  | true => exact ⟨-1, sets, rfl, .inl rfl⟩
  | false =>
    by_cases hseller : equip.pid ≠ seller
    · exact ⟨-1, sets, by rw [equipTrade, if_neg Bool.false_ne_true, if_pos hseller], .inl rfl⟩
    obtain rfl : holder = seller := hpid.symm.trans (not_not.mp hseller)
    by_cases hworn : equip.heroUuid > 0 ∨ equip.placeholder ≠ 0
    · exact ⟨-1, sets, by rw [equipTrade, if_neg Bool.false_ne_true, if_neg hseller, if_pos hworn], .inl rfl⟩
    · obtain ⟨sold, hsold, hm', hv', htrade⟩ := equipTrade_sold h buyer hm hworn
      exact ⟨0, _, htrade, .inr ⟨hu, rfl, sold, hsold, hm', hv', rfl⟩⟩

end EquipStore

theorem Owned.trade {sets sets' : ℕ → EquipStore} (h : Owned sets) {talented : Bool} {seller holder buyer u : ℕ}
    {equip : OwnedEquip} (hm : (sets holder).m u = some equip) {ret : ℤ}
    (ht : EquipStore.equipTrade talented sets seller buyer equip = .ok (ret, sets')) : Owned sets' := by
  obtain ⟨_, _, ht', hcases⟩ := EquipStore.equipTrade_spec h talented seller buyer hm
  rw [ht'] at ht
  obtain ⟨-, rfl⟩ := ok_pair_inj ht
  cases hcases with
  | inl he => exact he ▸ h
  | inr hcases =>
    obtain ⟨hu, -, sold, hsold, hnone, -, rfl⟩ := hcases
    have howned : Owned sold := by
      rw [hsold, ← hu, ← EquipStore.equipDelete_eq]
      exact h.delete seller equip
    refine howned.put (fun e he => ?_) (fun _ p _ => hnone p) (fun _ => Option.some_ne_none _) fun v hv => ?_
    · rw [← Option.some.inj he]
      exact ⟨hu, rfl⟩
    · obtain ⟨v', hv', rfl⟩ := mem_map.mp hv
      exact (h u).uid seller v' hv'

end CServer.Modules
