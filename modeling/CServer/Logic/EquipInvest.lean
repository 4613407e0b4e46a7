import CServer.Modules.EquipValue
import CServer.Modules.Reward
import CServer.Logic.Goods

/-! # `world/logic/aL.c`: what is invested in an equip and paid back

Refreshing and growing the affixes of an equip cost items; a part of what they cost is stored as a value of the equip, goes
with it when it is traded, and is paid back through a reward when it is deleted. `int`s do not overflow.

What is rolled is an input: the affix that `affix_pool_choose` gives, and what each affix grows by.
-/
namespace CServer.Logic
open CServer.Lib CServer.Modules Function List
open Option hiding mem_map map map_id map_map

/-! ## Configuration -/

structure AffixConfig where
  refreshPool : ℤ
  refreshCost : CostConfig
  growMin : ℤ
  growMax : ℤ
  growCost : List CostConfig
  decompose : CostConfig

/-- `decompose` has the increase of each value with the level. -/
structure EquipConfig where
  levelUpType : ℤ
  decompose : List (CostConfig × ℤ)

/-- No cost, or an item; the fields are `int`s. -/
def CostConfig.Payable (c : CostConfig) : Prop :=
  c.value = 0 ∨ c.type = rewardTypeItem ∧ (-2 ^ 31 ≤ c.id ∧ c.id < 2 ^ 31) ∧ -2 ^ 31 ≤ c.value ∧ c.value < 2 ^ 31

/-- The tables. `affixValue` and `affixMax` are `calc_affix_value` and `calc_affix_grow_max_value`, the common
configurations are their `para1`. -/
structure InvestConfig where
  affix : ℤ → Option AffixConfig
  equip : ℤ → Option EquipConfig
  upgrade : ℤ → ℤ → Option (ℤ × ℤ)
  common9 : Option ℤ
  common14 : Option ℤ
  common15 : Option ℤ
  affixValue : AffixConfig → EquipAffixInfo → ℤ → ℤ
  affixMax : AffixConfig → ℤ → ℤ
  consumePackages : ConsumePackages
  itemPackages : ℕ → Bool
  refresh_payable : ∀ id c, affix id = some c → c.refreshCost.Payable
  grow_payable : ∀ id c, affix id = some c → ∀ d ∈ c.growCost, d.Payable
  refresh_ratio : ∀ r, common14 = some r → r ≤ 10000
  grow_ratio : ∀ r, common15 = some r → r ≤ 10000

/-! ## The code -/

def retNotExist : ℤ := 3
def retParamError : ℤ := 4

structure AffixRefreshInfo where
  uuid : ℕ
  index : ℕ
  gid : ℤ
  value : ℤ

/-- Not in the source: what has been consumed for an equip, by its item; the values of the equips that have been deleted,
and their uuids. -/
structure InvestState where
  sets : ℕ → EquipStore
  inventory : ℕ → Inventory
  refreshInfo : ℕ → AffixRefreshInfo
  consumed : ℕ → ℤ → ℤ
  gone : List EquipValue
  deleted : List ℕ

/-- An operation of a player on an equip, or a change elsewhere: of an inventory, or of where an equip is worn. -/
inductive InvestAct
  | refresh (pid uuid index confirm : ℕ) (choice : Option (ℤ × ℤ))
  | grow (pid uuid : ℕ) (count : ℤ) (rolls : ℕ → ℤ)
  /-- The equip is one of `holder`. -/
  | trade (talented : Bool) (seller buyer holder uuid : ℕ)
  /-- `online`, `grants` and `inserted` are those of the commit of the reward. -/
  | delete (pid uuid paybackFlag : ℕ) (online : Bool) (grants : ℕ → ℕ → Bool) (inserted : Bool)
  | inventory (pid : ℕ) (inv : Inventory)
  | wear (pid uuid heroUuid : ℕ) (placeholder : ℤ)

namespace InvestState

def equipGet (s : InvestState) (pid uuid : ℕ) : Option OwnedEquip := (s.sets pid).m uuid

def setEquip (s : InvestState) (pid : ℕ) (equip : OwnedEquip) : InvestState :=
  { s with sets := update s.sets pid ((s.sets pid).put equip.uuid (some equip) ((s.sets pid).values equip.uuid)) }

/-- `CheckAndConsume`, and then `equip_add_value` for a part of what it took. -/
def payCost (packages : ConsumePackages) (s : InvestState) (pid : ℕ) (equip : OwnedEquip) (c : CostConfig)
    (ratio : Option ℤ) : ℤ × InvestState :=
  let r := checkAndConsume packages pid (s.inventory pid) 0 c.pass
  let taken := (s.inventory pid).count (.item c.pass.id) - r.2.count (.item c.pass.id)
  let s := { s with
    inventory := update s.inventory pid r.2
    consumed := update s.consumed equip.uuid
      (update (s.consumed equip.uuid) c.id (s.consumed equip.uuid c.id + taken)) }
  if r.1 ≠ 0 then (r.1, s)
  else
    match ratio with
    | none => (r.1, s)
    | some para1 =>
      if para1 > 0 then
        let set := (s.sets pid).equipAddValue pid equip c.type c.id ((c.value * para1).tdiv 10000)
        (r.1, { s with sets := update s.sets pid set })
      else (r.1, s)

/-- With `confirm & 2`, what has been rolled is put into the equip. -/
def confirmRefresh (s : InvestState) (pid confirm : ℕ) (equip : OwnedEquip) (grow : ℤ) : ℤ × InvestState :=
  if confirm.testBit 1 then
    let cache := s.refreshInfo pid
    if cache.uuid ≠ equip.uuid then (retParamError, s)
    else
      let s := s.setEquip pid (equip.updateAffix cache.index ⟨cache.gid, cache.value, grow⟩)
      (retSuccess, { s with refreshInfo := update s.refreshInfo pid ⟨0, 0, 0, 0⟩ })
  else (retSuccess, s)

variable (cfg : InvestConfig)

def refreshProperty (s : InvestState) (pid uuid index confirm : ℕ) (choice : Option (ℤ × ℤ)) :
    ℤ × InvestState :=
  match s.equipGet pid uuid with
  | none => (retNotExist, s)
  | some equip =>
    match equip.getAffix index with
    | none => (retParamError, s)
    | some affix =>
      if affix.id = 0 then (retParamError, s)
      else
        match cfg.affix affix.id with
        | none => (retError, s)
        | some acfg =>
          if acfg.refreshPool = 0 then (retError, s)
          else if confirm.testBit 0 then
            match choice with
            | none => (retError, s)
            | some (gid, value) =>
              let r := s.payCost cfg.consumePackages pid equip acfg.refreshCost cfg.common14
              if r.1 ≠ 0 then (retNotExist, r.2)
              else
                { r.2 with refreshInfo := update r.2.refreshInfo pid ⟨uuid, index, gid, value⟩ }.confirmRefresh
                  pid confirm equip affix.grow
          else s.confirmRefresh pid confirm equip affix.grow

/-- One affix in `aL_equip_affix_grow`: what it costs and what it becomes, and whether it grows. -/
def growAffix (level roll : ℤ) (a : EquipAffixInfo) :
    Option (List CostConfig × EquipAffixInfo × Bool) :=
  if a.id = 0 then some ([], a, false)
  else
    match cfg.affix a.id with
    | none => none
    | some acfg =>
      if acfg.growMin = acfg.growMax ∧ acfg.growMin = 0 then some ([], a, false)
      else if cfg.affixValue acfg a level ≥ cfg.affixMax acfg level then some ([], a, false)
      else
        let grow := if a.grow + roll < 0 then 0 else a.grow + roll
        let next := cfg.affixValue acfg { a with grow := grow } level
        let grow := if next > cfg.affixMax acfg level then grow - (next - cfg.affixMax acfg level) else grow
        some (acfg.growCost, { a with grow := grow }, true)

def growAffixes (cfg : InvestConfig) (equip : OwnedEquip) (rolls : ℕ → ℤ) :
    List ℕ → Option (List CostConfig × OwnedEquip × ℕ)
  | [] => some ([], equip, 0)
  | i :: rest =>
    match growAffix cfg equip.level (rolls i) (equip.affix i) with
    | none => none
    | some (cost, a, grown) =>
      match growAffixes cfg (equip.updateAffix i a) rolls rest with
      | none => none
      | some (costs, equip, n) => some (cost ++ costs, equip, n + if grown then 1 else 0)

def payAll (packages : ConsumePackages) (pid : ℕ) (equip : OwnedEquip) (ratio : Option ℤ) :
    InvestState → List CostConfig → ℤ × InvestState
  | s, [] => (retSuccess, s)
  | s, c :: cs =>
    let r := s.payCost packages pid equip c ratio
    if r.1 ≠ 0 then (retNotEnough, r.2) else payAll packages pid equip ratio r.2 cs

def affixGrow (s : InvestState) (pid uuid : ℕ) (count : ℤ) (rolls : ℕ → ℤ) : ℤ × InvestState :=
  if count ≤ 0 then (retError, s)
  else
    match s.equipGet pid uuid with
    | none => (retNotExist, s)
    | some equip =>
      match growAffixes cfg equip rolls [1, 2, 3, 4, 5, 6] with
      | none => (retError, s)
      | some (grown, equip', n) =>
        if n = 0 then (retError, s)
        else
          let cost := affixGrowCost grown count
          if checkAll retNotEnough (s.inventory pid) 0 (cost.map CostConfig.pass) ≠ 0 then (retNotEnough, s)
          else
            let r := payAll cfg.consumePackages pid equip cfg.common15 s cost
            if r.1 ≠ 0 then (r.1, r.2) else (retSuccess, r.2.setEquip pid equip')

/-! ### Deletion -/

/-- `reward_add_content`, with the number of the entry if there is one. -/
def addContent (r : RewardState) (type key value : ℤ) : RewardState × Option ℕ :=
  if toUnsigned type = 0 ∨ toUnsigned key = 0 ∨ toUnsigned value = 0 then (r, none)
  else (r.rewardAddContent (toUnsigned type) (toUnsigned key) (toUnsigned value) 0, some r.entries.length)

def addValues : RewardState → List EquipValue → RewardState × List (EquipValue × Option ℕ)
  | r, [] => (r, [])
  | r, v :: vs =>
    let one := addContent r v.type v.id v.value
    let rest := addValues one.1 vs
    (rest.1, (v, one.2) :: rest.2)

def addAll (r : RewardState) (cs : List CostConfig) : RewardState :=
  cs.foldl (fun r c => (addContent r c.type c.id c.value).1) r

def affixDecompose (equip : OwnedEquip) : List CostConfig :=
  [1, 2, 3, 4, 5, 6].filterMap fun i =>
    if (equip.affix i).id > 0 then (cfg.affix (equip.affix i).id).map AffixConfig.decompose else none

def payback (equip : OwnedEquip) (ecfg : EquipConfig) (values : List EquipValue) (paybackFlag : ℕ) :
    RewardState × List (EquipValue × Option ℕ) :=
  let r := rewardCreate false
  let r :=
    match cfg.common9 with
    | none => r
    | some para1 =>
      if para1 > 0 then
        match cfg.upgrade equip.level ecfg.levelUpType with
        | none => r
        | some (type, id) => (addContent r type id ((equip.exp * para1).tdiv 10000)).1
      else r
  let r :=
    if paybackFlag.testBit 0 then
      addAll r (ecfg.decompose.map fun d => { d.1 with value := d.1.value + (equip.level - 1) * d.2 })
    else r
  if paybackFlag.testBit 1 then
    let r := addValues r values
    (addAll r.1 (affixDecompose cfg equip), r.2)
  else (r, values.map fun v => (v, none))

def paidOut (r : RewardState) (e : Option ℕ) : Bool :=
  e.any fun e => r.granted e ≠ 0 ∨ e ∈ r.content.map RewardContent.entry

def markPaid (r : RewardState) (values : List (EquipValue × Option ℕ)) : List EquipValue :=
  values.map fun v => if paidOut r v.2 then { v.1 with paid := v.1.paid + 1 } else v.1

def equipDelete (cfg : InvestConfig) (s : InvestState) (pid uuid paybackFlag : ℕ) (online : Bool)
    (grants : ℕ → ℕ → Bool) (inserted : Bool) : ℤ × InvestState :=
  match s.equipGet pid uuid with
  | none => (retNotExist, s)
  | some equip =>
    match cfg.equip equip.gid with
    | none => (retNotExist, s)
    | some ecfg =>
      let set := s.sets pid
      let back := payback cfg equip ecfg (set.values uuid) paybackFlag
      let r := back.1.rewardCommit cfg.itemPackages pid online grants inserted
      let values := markPaid r.2 back.2
      if r.1 ≠ 0 then
        (retError, { s with sets := update s.sets pid (set.put uuid (some equip) values) })
      else
        (retSuccess, { s with
          sets := update s.sets pid (set.equipDelete equip)
          gone := s.gone ++ values
          deleted := uuid :: s.deleted })

def step (s : InvestState) : InvestAct → Except Fault InvestState
  | .refresh pid uuid index confirm choice => .ok (s.refreshProperty cfg pid uuid index confirm choice).2
  | .grow pid uuid count rolls => .ok (s.affixGrow cfg pid uuid count rolls).2
  | .trade talented seller buyer holder uuid =>
    match s.equipGet holder uuid with
    | none => .ok s
    | some equip => do
      let r ← EquipStore.equipTrade talented s.sets seller buyer equip
      return { s with sets := r.2 }
  | .delete pid uuid paybackFlag online grants inserted =>
    .ok (s.equipDelete cfg pid uuid paybackFlag online grants inserted).2
  | .inventory pid inv => .ok { s with inventory := update s.inventory pid inv }
  | .wear pid uuid heroUuid placeholder =>
    match s.equipGet pid uuid with
    | none => .ok s
    | some equip => .ok (s.setEquip pid { equip with heroUuid := heroUuid, placeholder := placeholder })

end InvestState

/-! ## Conservation -/

def InvestAct.Played : InvestAct → Prop
  | .refresh pid _ _ _ _ => aiMaxId < pid
  | .grow pid _ _ _ => aiMaxId < pid
  | _ => True

namespace InvestState

/-- What is stored has been consumed; each value is paid out at most once; nothing is left of what is deleted. -/
structure Conserved (s : InvestState) : Prop where
  consumed : ∀ p u id, stored rewardTypeItem id ((s.sets p).values u) ≤ s.consumed u id
  once : ∀ p u, ∀ v ∈ (s.sets p).values u, v.paid ≤ 1
  onceGone : ∀ v ∈ s.gone, v.paid ≤ 1
  cleared : ∀ u ∈ s.deleted, ∀ p w, ∀ v ∈ (s.sets p).values w, v.uid ≠ u

/-- What is paid back is written to the database, or cannot fail: the player is not online, everything in the reward is
granted, or nothing is granted of what was stored. -/
def PaysOnce (cfg : InvestConfig) (s : InvestState) : InvestAct → Prop
  | .delete pid uuid paybackFlag online grants inserted =>
    ∀ equip ecfg, s.equipGet pid uuid = some equip → cfg.equip equip.gid = some ecfg →
      let back := payback cfg equip ecfg ((s.sets pid).values uuid) paybackFlag
      inserted = true ∨ online = false ∨ pid = 0 ∨
        (∀ c ∈ back.1.content, (rewardAddOne cfg.itemPackages (grants c.entry) c).1 = 0) ∨
        ∀ v ∈ back.2, ∀ c ∈ back.1.content, v.2 = some c.entry →
          (rewardAddOne cfg.itemPackages (grants c.entry) c).2 = 0
  | _ => True

/-! ## What each operation keeps -/

/-- What every step keeps: what is stored has not been paid out. -/
structure Kept (s : InvestState) : Prop where
  owned : Owned s.sets
  consumed : ∀ p u id, stored rewardTypeItem id ((s.sets p).values u) ≤ s.consumed u id
  nonneg : ∀ u id, 0 ≤ s.consumed u id
  unpaid : ∀ p u, ∀ v ∈ (s.sets p).values u, v.paid = 0
  gone : ∀ v ∈ s.gone, v.paid ≤ 1
  deleted : ∀ u ∈ s.deleted, ∀ p, (s.sets p).m u = none

variable {s : InvestState}

theorem Kept.conserved (h : Kept s) : Conserved s where
  consumed := h.consumed
  once := fun p u v hv => (h.unpaid p u v hv).le.trans zero_le_one
  onceGone := h.gone
  cleared := by
    intro u hu p w v hv hw
    have hwu : w = u := ((h.owned w).uid p v hv).symm.trans hw
    subst hwu
    exact (h.owned w).valued p (ne_nil_of_mem hv) (h.deleted w hu p)

theorem Kept.replace (h : Kept s) {pid u : ℕ} {e e' : OwnedEquip} {values : List EquipValue} {consumed : ℕ → ℤ → ℤ}
    (hm : s.equipGet pid u = some e) (he : e'.uuid = u ∧ e'.pid = pid) (hu : ∀ v ∈ values, v.uid = u ∧ v.paid = 0)
    (hc : ∀ w id, s.consumed w id ≤ consumed w id) (hv : ∀ id, stored rewardTypeItem id values ≤ consumed u id) :
    Kept { s with
      sets := update s.sets pid ((s.sets pid).put u (some e') values)
      consumed := consumed } where
  owned := h.owned.replace hm he fun v hv => (hu v hv).1
  consumed := by
    intro p w id
    cases values_put_cases s.sets pid u (some e') values p w with
    | inl hvalues => exact hvalues ▸ (h.consumed p w id).trans (hc w id)
    | inr hvalues =>
      obtain ⟨hw, -, hvalues⟩ := hvalues
      change stored rewardTypeItem id ((update s.sets pid _ p).values w) ≤ consumed w id
      rw [hvalues, hw]
      exact hv id
  nonneg := fun w id => (h.nonneg w id).trans (hc w id)
  unpaid := by
    intro p w v hmem
    cases values_put_cases s.sets pid u (some e') values p w with
    | inl hvalues =>
      rw [hvalues] at hmem
      exact h.unpaid p w v hmem
    | inr hvalues =>
      rw [hvalues.2.2] at hmem
      exact (hu v hmem).2
  gone := h.gone
  deleted := by
    intro w hw p
    cases m_put_cases s.sets pid u (some e') values p w with
    | inl hput => exact hput.trans (h.deleted w hw p)
    | inr hput =>
      obtain ⟨rfl, -, -⟩ := hput
      have hnone := h.deleted w hw pid
      rw [equipGet, hnone] at hm
      exact nomatch hm

theorem Kept.held (h : Kept s) {pid u : ℕ} {e : OwnedEquip} (hm : s.equipGet pid u = some e) : e.uuid = u ∧ e.pid = pid :=
  (h.owned u).held pid e hm

theorem Kept.setEquip (h : Kept s) {pid u : ℕ} {e e' : OwnedEquip} (hm : s.equipGet pid u = some e)
    (he : e'.uuid = u ∧ e'.pid = pid) : Kept (s.setEquip pid e') := by
  unfold InvestState.setEquip
  rw [he.1]
  exact h.replace hm he (fun v hv => ⟨(h.owned u).uid pid v hv, h.unpaid pid u v hv⟩) (fun _ _ => le_rfl)
    (h.consumed pid u)

theorem updateAffix_same (e : OwnedEquip) (i : ℕ) (a : EquipAffixInfo) :
    (e.updateAffix i a).uuid = e.uuid ∧ (e.updateAffix i a).pid = e.pid ∧ (e.updateAffix i a).level = e.level := by
  unfold OwnedEquip.updateAffix
  split <;> exact ⟨rfl, rfl, rfl⟩

/-! ### Costs -/

theorem toUnsigned_ne_zero {z : ℤ} (h : -2 ^ 31 ≤ z ∧ z < 2 ^ 31) (hz : z ≠ 0) : toUnsigned z ≠ 0 := by
  unfold toUnsigned
  omega

theorem share_le {value para1 : ℤ} (hvalue : -2 ^ 31 ≤ value ∧ value < 2 ^ 31) (hpos : 0 < para1) (hle : para1 ≤ 10000) :
    (value * para1).tdiv 10000 ≤ toUnsigned value := by
  by_cases hv : 0 ≤ value
  · have hun : (toUnsigned value : ℤ) = value := by
      unfold toUnsigned
      omega
    rw [hun]
    have hmul : value * para1 ≤ value * 10000 := Int.mul_le_mul_of_nonneg_left hle hv
    calc (value * para1).tdiv 10000 ≤ (value * 10000).tdiv 10000 := Int.tdiv_le_tdiv (by omega) hmul
      _ = value := Int.mul_tdiv_cancel value (by omega)
  · have hneg : value * para1 ≤ 0 := Int.mul_nonpos_of_nonpos_of_nonneg (by omega) hpos.le
    have hdiv : 0 ≤ (-(value * para1)).tdiv 10000 := Int.tdiv_nonneg (by omega) (by omega)
    rw [Int.neg_tdiv] at hdiv
    omega

variable (packages : ConsumePackages)

theorem taken_nonneg {pid : ℕ} (hpid : aiMaxId < pid) (inv : Inventory) (c : Cost) :
    0 ≤ inv.count (.item c.id) - (checkAndConsume packages pid inv 0 c).2.count (.item c.id) := by
  by_cases hid : c.id = 0
  · rw [checkAndConsume, if_pos (Or.inr hid), sub_self]
  · have htakes := @checkAndConsume_takes packages inv (.item c.id) pid hpid 0 c hid
    exact sub_nonneg.mpr htakes.1

theorem taken_item {packages : ConsumePackages} {pid : ℕ} (hpid : aiMaxId < pid) (inv : Inventory) {c : Cost}
    (htype : c.type = rewardTypeItem) (hid : c.id ≠ 0) (hret : (checkAndConsume packages pid inv 0 c).1 = 0) :
    (c.value : ℤ) ≤ inv.count (.item c.id) - (checkAndConsume packages pid inv 0 c).2.count (.item c.id) := by
  have htakes := (@checkAndConsume_takes packages inv (.item c.id) pid hpid 0 c hid).2 hret
  have howed : owed 0 (.item c.id) c = c.value := by
    unfold owed goodOf
    rw [if_pos htype, if_pos rfl]
  omega

theorem Kept.consume (h : Kept s) (inventory : ℕ → Inventory) {consumed : ℕ → ℤ → ℤ}
    (hc : ∀ w id, s.consumed w id ≤ consumed w id) : Kept { s with inventory := inventory, consumed := consumed } :=
  ⟨h.owned, fun p u id => (h.consumed p u id).trans (hc u id), fun u id => (h.nonneg u id).trans (hc u id), h.unpaid,
    h.gone, h.deleted⟩

theorem payCost_kept (h : Kept s) {pid u : ℕ} (hpid : aiMaxId < pid) {e : OwnedEquip}
    (hm : s.equipGet pid u = some e) {c : CostConfig} (hc : c.Payable) {ratio : Option ℤ}
    (hratio : ∀ r, ratio = some r → r ≤ 10000) :
    Kept (s.payCost packages pid e c ratio).2 ∧ (s.payCost packages pid e c ratio).2.equipGet pid u = some e := by
  obtain ⟨rfl, hep⟩ := h.held hm
  have htaken := taken_nonneg packages hpid (s.inventory pid) c.pass
  have hmono : ∀ w id, s.consumed w id ≤ update s.consumed e.uuid (update (s.consumed e.uuid) c.id
      (s.consumed e.uuid c.id + ((s.inventory pid).count (.item c.pass.id) -
        (checkAndConsume packages pid (s.inventory pid) 0 c.pass).2.count (.item c.pass.id)))) w id := by
    intro w id
    by_cases hw : w = e.uuid
    · subst hw
      rw [update_self]
      by_cases hid : id = c.id
      · subst hid
        rw [update_self]
        omega
      · rw [update_of_ne hid]
    · rw [update_of_ne hw]
  have hkept := h.consume (update s.inventory pid
    (checkAndConsume packages pid (s.inventory pid) 0 c.pass).2) hmono
  unfold payCost
  simp only
  split
  · exact ⟨hkept, hm⟩
  case isFalse hret =>
    cases hr : ratio with
    | none => exact ⟨hkept, hm⟩
    | some para1 =>
      simp only
      split
      case isFalse => exact ⟨hkept, hm⟩
      case isTrue hpos =>
        have hm' : (s.sets pid).m e.uuid = some e := hm
        rw [EquipStore.equipAddValue_eq, hm']
        refine ⟨hkept.replace hm ⟨rfl, hep⟩ ?_ (fun _ _ => le_rfl) ?_, ?_⟩
        · intro v hv
          split at hv
          · exact ⟨(h.owned e.uuid).uid pid v hv, h.unpaid pid e.uuid v hv⟩
          · exact addValue_forall (P := fun v => v.uid = e.uuid ∧ v.paid = 0) ⟨rfl, rfl⟩ (fun _ _ hv => hv) _
              (fun v hv => ⟨(h.owned e.uuid).uid pid v hv, h.unpaid pid e.uuid v hv⟩) v hv
        · intro id
          have hold := hkept.consumed pid e.uuid id
          split
          case isTrue => exact hold
          case isFalse hnew =>
            rw [stored_addValue]
            split
            case isFalse =>
              rw [add_zero]
              exact hold
            case isTrue hitem =>
              obtain ⟨-, rfl⟩ := hitem
              have hbefore := h.consumed pid e.uuid c.id
              obtain ⟨htype, hid, hvalue⟩ := hc.resolve_left fun hz => hnew (.inr (.inr (by rw [hz, zero_mul]; rfl)))
              have hzero : c.id ≠ 0 := fun hz => hnew (.inr (.inl hz))
              have htype' : c.pass.type = rewardTypeItem := by
                rw [CostConfig.pass, htype]
                rfl
              have hitem := taken_item hpid (s.inventory pid) htype' (toUnsigned_ne_zero hid hzero) (not_not.mp hret)
              have hshare := share_le hvalue hpos (hratio para1 hr)
              have hpass : c.pass.value = toUnsigned c.value := rfl
              rw [hpass] at hitem
              simp only [update_self]
              exact add_le_add hbefore (hshare.trans hitem)
        · rw [equipGet]
          simp only [update_self, EquipStore.put]

/-! ### Refreshing and growing -/

theorem Kept.roll (h : Kept s) (info : ℕ → AffixRefreshInfo) : Kept { s with refreshInfo := info } :=
  ⟨h.owned, h.consumed, h.nonneg, h.unpaid, h.gone, h.deleted⟩

theorem confirmRefresh_kept (h : Kept s) {pid u confirm : ℕ} {e : OwnedEquip} (hm : s.equipGet pid u = some e) (grow : ℤ)
    (info : ℕ → AffixRefreshInfo) : Kept ({ s with refreshInfo := info }.confirmRefresh pid confirm e grow).2 := by
  obtain ⟨hu, hp⟩ := h.held hm
  unfold confirmRefresh
  split
  · simp only
    split
    · exact h.roll info
    · obtain ⟨hsame, hsame', -⟩ := updateAffix_same e (info pid).index ⟨(info pid).gid, (info pid).value, grow⟩
      have hset := (h.roll info).setEquip hm ⟨hsame.trans hu, hsame'.trans hp⟩
      exact hset.roll _
  · exact h.roll info

theorem refresh_kept (cfg : InvestConfig) (h : Kept s) {pid : ℕ} (hpid : aiMaxId < pid) (uuid index confirm : ℕ)
    (choice : Option (ℤ × ℤ)) : Kept (s.refreshProperty cfg pid uuid index confirm choice).2 := by
  unfold refreshProperty
  cases hm : s.equipGet pid uuid with
  | none => exact h
  | some e =>
    simp only
    cases e.getAffix index with
    | none => exact h
    | some affix =>
      simp only
      split
      · exact h
      · cases ha : cfg.affix affix.id with
        | none => exact h
        | some acfg =>
          simp only
          split
          · exact h
          · split
            · cases choice with
              | none => exact h
              | some new =>
                obtain ⟨hpaid, hm'⟩ := payCost_kept cfg.consumePackages h hpid hm
                  (cfg.refresh_payable _ acfg ha) cfg.refresh_ratio
                simp only
                split
                · exact hpaid
                · exact confirmRefresh_kept hpaid hm' affix.grow _
            · exact confirmRefresh_kept h hm affix.grow s.refreshInfo

theorem payAll_kept {pid u : ℕ} (hpid : aiMaxId < pid) {e : OwnedEquip} {ratio : Option ℤ}
    (hratio : ∀ r, ratio = some r → r ≤ 10000) (cs : List CostConfig) : ∀ s : InvestState, Kept s →
      s.equipGet pid u = some e → (∀ c ∈ cs, c.Payable) →
        Kept (payAll packages pid e ratio s cs).2 ∧ (payAll packages pid e ratio s cs).2.equipGet pid u = some e := by
  induction cs with
  | nil => exact fun s h hm _ => ⟨h, hm⟩
  | cons c cs ih =>
    intro s h hm hcs
    obtain ⟨hpaid, hm'⟩ := payCost_kept packages h hpid hm (hcs c mem_cons_self) hratio
    unfold payAll
    simp only
    split
    · exact ⟨hpaid, hm'⟩
    · exact ih _ hpaid hm' fun d hd => hcs d (mem_cons_of_mem c hd)

theorem toInt_int (z : ℤ) : -2 ^ 31 ≤ toInt z ∧ toInt z < 2 ^ 31 := by
  unfold toInt
  omega

theorem addAffixCost_payable {c : CostConfig} (hc : c.Payable) (count : ℤ) (cost : List CostConfig) :
    c.value ≠ 0 → (∀ d ∈ cost, d.Payable) → ∀ d ∈ addAffixCost cost c count, d.Payable := by
  induction cost with
  | nil => exact fun _ h => h
  | cons slot rest ih =>
    intro hvalue h d hd
    rw [addAffixCost] at hd
    split at hd
    · cases mem_cons.mp hd with
      | inl he =>
        obtain ⟨htype, hid, -⟩ := hc.resolve_left hvalue
        rw [he]
        exact .inr ⟨htype, hid, toInt_int _⟩
      | inr hd => exact h d (mem_cons_of_mem slot hd)
    · cases mem_cons.mp hd with
      | inl he => exact he ▸ h slot mem_cons_self
      | inr hd => exact ih hvalue (fun d hd => h d (mem_cons_of_mem slot hd)) d hd

theorem affixGrowCost_payable {grown : List CostConfig} (h : ∀ c ∈ grown, c.Payable) (count : ℤ) :
    ∀ d ∈ affixGrowCost grown count, d.Payable := by
  unfold affixGrowCost
  have hfold : ∀ (cs cost : List CostConfig), (∀ c ∈ cs, c.Payable ∧ c.value ≠ 0) → (∀ d ∈ cost, d.Payable) →
      ∀ d ∈ cs.foldl (fun cost c => addAffixCost cost c count) cost, d.Payable := by
    intro cs
    induction cs with
    | nil => exact fun _ _ hcost => hcost
    | cons c cs ih =>
      intro cost hcs hcost
      obtain ⟨hc, hvalue⟩ := hcs c mem_cons_self
      exact ih _ (fun d hd => hcs d (mem_cons_of_mem c hd)) (addAffixCost_payable hc count cost hvalue hcost)
  refine hfold _ _ (fun c hc => ?_) fun d hd => ?_
  · obtain ⟨hmem, hvalue⟩ := mem_filter.mp hc
    exact ⟨h c hmem, of_decide_eq_true hvalue⟩
  · rw [eq_of_mem_replicate hd]
    exact .inl rfl

theorem growAffix_payable (cfg : InvestConfig) {level roll : ℤ} {a a' : EquipAffixInfo} {cost : List CostConfig}
    {grown : Bool} (h : growAffix cfg level roll a = some (cost, a', grown)) : ∀ c ∈ cost, c.Payable := by
  have hnil : ∀ c ∈ ([] : List CostConfig), c.Payable := fun c hc => absurd hc not_mem_nil
  unfold growAffix at h
  split at h
  · exact (Prod.mk.inj (some.inj h)).1 ▸ hnil
  · cases ha : cfg.affix a.id with
    | none =>
      rw [ha] at h
      exact nomatch h
    | some acfg =>
      simp only [ha] at h
      split at h
      · exact (Prod.mk.inj (some.inj h)).1 ▸ hnil
      · split at h
        · exact (Prod.mk.inj (some.inj h)).1 ▸ hnil
        · exact (Prod.mk.inj (some.inj h)).1 ▸ cfg.grow_payable a.id acfg ha

theorem growAffixes_spec (cfg : InvestConfig) (rolls : ℕ → ℤ) (is : List ℕ) : ∀ (e e' : OwnedEquip)
    (costs : List CostConfig) (n : ℕ), growAffixes cfg e rolls is = some (costs, e', n) →
      (∀ c ∈ costs, c.Payable) ∧ e'.uuid = e.uuid ∧ e'.pid = e.pid := by
  induction is with
  | nil =>
    intro e e' costs n h
    obtain ⟨rfl, he⟩ := Prod.mk.inj (some.inj h)
    obtain ⟨rfl, -⟩ := Prod.mk.inj he
    exact ⟨fun c hc => absurd hc not_mem_nil, rfl, rfl⟩
  | cons i rest ih =>
    intro e e' costs n h
    rw [growAffixes] at h
    cases hone : growAffix cfg e.level (rolls i) (e.affix i) with
    | none =>
      rw [hone] at h
      exact nomatch h
    | some one =>
      obtain ⟨cost, a, grown⟩ := one
      simp only [hone] at h
      cases hrest : growAffixes cfg (e.updateAffix i a) rolls rest with
      | none =>
        rw [hrest] at h
        exact nomatch h
      | some r =>
        obtain ⟨costs', e₁, n₁⟩ := r
        simp only [hrest] at h
        obtain ⟨rfl, he⟩ := Prod.mk.inj (some.inj h)
        obtain ⟨rfl, -⟩ := Prod.mk.inj he
        obtain ⟨hcosts, huuid, hpid⟩ := ih (e.updateAffix i a) e₁ costs' n₁ hrest
        obtain ⟨hsame, hsame', -⟩ := updateAffix_same e i a
        refine ⟨fun c hc => ?_, huuid.trans hsame, hpid.trans hsame'⟩
        cases mem_append.mp hc with
        | inl hc => exact growAffix_payable cfg hone c hc
        | inr hc => exact hcosts c hc

theorem grow_kept (cfg : InvestConfig) (h : Kept s) {pid : ℕ} (hpid : aiMaxId < pid) (uuid : ℕ) (count : ℤ)
    (rolls : ℕ → ℤ) : Kept (s.affixGrow cfg pid uuid count rolls).2 := by
  unfold affixGrow
  split
  · exact h
  · cases hm : s.equipGet pid uuid with
    | none => exact h
    | some e =>
      simp only
      cases hgrow : growAffixes cfg e rolls [1, 2, 3, 4, 5, 6] with
      | none => exact h
      | some r =>
        obtain ⟨grown, e', n⟩ := r
        obtain ⟨hcosts, huuid, hep⟩ := growAffixes_spec cfg rolls _ e e' grown n hgrow
        obtain ⟨hu, hp⟩ := h.held hm
        obtain ⟨hpaid, hm'⟩ := payAll_kept cfg.consumePackages hpid cfg.grow_ratio
          (affixGrowCost grown count) s h hm (affixGrowCost_payable hcosts count)
        simp only
        split
        · exact h
        · split
          · exact h
          · split
            · exact hpaid
            · exact hpaid.setEquip hm' ⟨huuid.trans hu, hep.trans hp⟩

theorem trade_kept (h : Kept s) {talented : Bool} {seller buyer holder u : ℕ} {e : OwnedEquip}
    (hm : s.equipGet holder u = some e) {ret : ℤ} {sets : ℕ → EquipStore}
    (ht : EquipStore.equipTrade talented s.sets seller buyer e = .ok (ret, sets)) : Kept { s with sets := sets } := by
  have howned := h.owned.trade hm ht
  obtain ⟨_, _, ht', hcases⟩ := EquipStore.equipTrade_spec h.owned talented seller buyer hm
  rw [ht'] at ht
  obtain ⟨-, rfl⟩ := ok_pair_inj ht
  cases hcases with
  | inl he => exact he ▸ h
  | inr hcases =>
    obtain ⟨-, rfl, sold, hsold, hnone, hempty, rfl⟩ := hcases
    -- what a set holds of an equip after the trade, from what one held before
    have hvalues : ∀ p w, ∃ q, ∃ f : EquipValue → EquipValue,
        (∀ v, (f v).type = v.type ∧ (f v).id = v.id ∧ (f v).value = v.value ∧ (f v).paid = v.paid) ∧
        ((update sold buyer ((sold buyer).put u (some { e with pid := buyer })
          (((s.sets holder).values u).map fun v => { v with pid := buyer })) p).values w = [] ∨
        (update sold buyer ((sold buyer).put u (some { e with pid := buyer })
          (((s.sets holder).values u).map fun v => { v with pid := buyer })) p).values w =
            ((s.sets q).values w).map f) := by
      intro p w
      cases values_put_cases sold buyer u (some { e with pid := buyer })
        (((s.sets holder).values u).map fun v => { v with pid := buyer }) p w with
      | inl hput =>
        rw [hput]
        refine ⟨p, id, fun _ => ⟨rfl, rfl, rfl, rfl⟩, ?_⟩
        rw [map_id]
        cases values_put_cases s.sets holder u none [] p w with
        | inl hput => exact .inr (hsold ▸ hput)
        | inr hput => exact .inl (hsold ▸ hput.2.2)
      | inr hput =>
        obtain ⟨rfl, -, hput⟩ := hput
        exact ⟨holder, fun v => { v with pid := buyer }, fun _ => ⟨rfl, rfl, rfl, rfl⟩, .inr hput⟩
    refine ⟨howned, ?_, h.nonneg, ?_, h.gone, ?_⟩
    · intro p w id
      obtain ⟨q, f, hf, hcase⟩ := hvalues p w
      cases hcase with
      | inl hnil =>
        rw [hnil]
        exact h.nonneg w id
      | inr hmap =>
        rw [hmap, stored_map fun v => ⟨(hf v).1, (hf v).2.1, (hf v).2.2.1⟩]
        exact h.consumed q w id
    · intro p w v hv
      obtain ⟨q, f, hf, hcase⟩ := hvalues p w
      cases hcase with
      | inl hnil =>
        rw [hnil] at hv
        exact absurd hv not_mem_nil
      | inr hmap =>
        rw [hmap] at hv
        obtain ⟨v', hv', rfl⟩ := mem_map.mp hv
        exact (hf v').2.2.2.trans (h.unpaid q w v' hv')
    · intro w hw p
      cases m_put_cases sold buyer u (some { e with pid := buyer })
        (((s.sets holder).values u).map fun v => { v with pid := buyer }) p w with
      | inl hput =>
        refine hput.trans ?_
        cases m_put_cases s.sets holder u none [] p w with
        | inl hput => exact hsold ▸ hput.trans (h.deleted w hw p)
        | inr hput => exact hsold ▸ hput.2.2
      | inr hput =>
        obtain ⟨rfl, -, -⟩ := hput
        have hdel := h.deleted w hw holder
        rw [equipGet, hdel] at hm
        exact nomatch hm

/-! ### Deletions -/

/-- A commit that fails has granted nothing of an entry of which nothing can be granted, or fails before it grants. -/
theorem commit_failed {packages : ℕ → Bool} {r : RewardState} {pid : ℕ} {online : Bool} {grants : ℕ → ℕ → Bool}
    {inserted : Bool} {e : ℕ} (h : (r.rewardCommit packages pid online grants inserted).1 ≠ 0) (hzero : r.granted e = 0)
    (hok : inserted = true ∨ online = false ∨ pid = 0 ∨
      (∀ c ∈ r.content, (rewardAddOne packages (grants c.entry) c).1 = 0) ∨
      ∀ c ∈ r.content, c.entry = e → (rewardAddOne packages (grants c.entry) c).2 = 0) :
    paidOut (r.rewardCommit packages pid online grants inserted).2 (some e) = false := by
  have hnone : ∀ r' : RewardState, r'.content = [] → r'.granted e = 0 → paidOut r' (some e) = false := by
    intro r' hcontent hgranted
    unfold paidOut
    rw [hcontent]
    simp [hgranted]
  unfold RewardState.rewardCommit at h ⊢
  simp only at h ⊢
  by_cases hc : r.autorecv = true ∧ pid ≠ 0 ∧ online = true
  · rw [if_pos hc] at h ⊢
    split at h
    · exact absurd rfl h
    case isFalse hleft =>
      rw [if_neg hleft]
      obtain ⟨hin, hcontent, hgranted⟩ := RewardState.store_failed h
      have hentry : ∀ c ∈ r.content, c.entry = e → (rewardAddOne packages (grants c.entry) c).2 = 0 := by
        rcases hok with hok | hok | hok | hok | hok
        · exact absurd (hin.symm.trans hok) Bool.false_ne_true
        · exact absurd (hok.symm.trans hc.2.2) Bool.false_ne_true
        · exact absurd hok hc.2.1
        · exact absurd (RewardState.receiveLoop_done r.content 0 r.granted hok) hleft
        · exact hok
      refine hnone _ hcontent ((congrFun hgranted e).trans ?_)
      exact (RewardState.receiveLoop_entry r.content 0 r.granted hentry).trans hzero
  · rw [if_neg hc] at h ⊢
    obtain ⟨-, hcontent, hgranted⟩ := RewardState.store_failed h
    exact hnone _ hcontent (hgranted.symm ▸ hzero)

theorem addContent_granted (r : RewardState) (type key value : ℤ) : (addContent r type key value).1.granted = r.granted := by
  unfold addContent
  split <;> rfl

theorem addAll_granted (cs : List CostConfig) : ∀ r : RewardState, (addAll r cs).granted = r.granted := by
  induction cs with
  | nil => exact fun _ => rfl
  | cons c cs ih => exact fun r => (ih _).trans (addContent_granted r c.type c.id c.value)

theorem addValues_spec (values : List EquipValue) : ∀ r : RewardState,
    (addValues r values).1.granted = r.granted ∧ (addValues r values).2.map Prod.fst = values := by
  induction values with
  | nil => exact fun _ => ⟨rfl, rfl⟩
  | cons v values ih =>
    intro r
    obtain ⟨hgranted, hvalues⟩ := ih (addContent r v.type v.id v.value).1
    exact ⟨hgranted.trans (addContent_granted r v.type v.id v.value), congrArg (v :: ·) hvalues⟩

theorem payback_spec (cfg : InvestConfig) (e : OwnedEquip) (ecfg : EquipConfig) (values : List EquipValue) (flag : ℕ) :
    (∀ n, (payback cfg e ecfg values flag).1.granted n = 0) ∧
      (payback cfg e ecfg values flag).2.map Prod.fst = values := by
  unfold payback
  simp only
  generalize hlevel : (match cfg.common9 with
    | none => rewardCreate false
    | some para1 =>
      if para1 > 0 then
        match cfg.upgrade e.level ecfg.levelUpType with
        | none => rewardCreate false
        | some (type, id) => (addContent (rewardCreate false) type id ((e.exp * para1).tdiv 10000)).1
      else rewardCreate false) = r
  have hr : ∀ n, r.granted n = 0 := by
    intro n
    rw [← hlevel]
    split
    · rfl
    · split
      · split
        · rfl
        · exact congrFun (addContent_granted _ _ _ _) n
      · rfl
  generalize hdecompose : (if flag.testBit 0 then
    addAll r (ecfg.decompose.map fun d => { d.1 with value := d.1.value + (e.level - 1) * d.2 }) else r) = r'
  have hr' : ∀ n, r'.granted n = 0 := by
    intro n
    rw [← hdecompose]
    split
    · exact (congrFun (addAll_granted _ r) n).trans (hr n)
    · exact hr n
  split
  · obtain ⟨hgranted, hvalues⟩ := addValues_spec values r'
    refine ⟨fun n => ?_, hvalues⟩
    rw [addAll_granted, hgranted]
    exact hr' n
  · refine ⟨hr', ?_⟩
    rw [map_map]
    exact map_id values

theorem markPaid_unpaid {r : RewardState} {values : List (EquipValue × Option ℕ)}
    (h : ∀ v ∈ values, paidOut r v.2 = false) : markPaid r values = values.map Prod.fst := by
  apply map_congr_left
  intro v hv
  rw [h v hv, if_neg Bool.false_ne_true]

theorem delete_kept (cfg : InvestConfig) (h : Kept s) {pid uuid flag : ℕ} {online : Bool} {grants : ℕ → ℕ → Bool}
    {inserted : Bool} (hok : PaysOnce cfg s (.delete pid uuid flag online grants inserted)) :
    Kept (s.equipDelete cfg pid uuid flag online grants inserted).2 := by
  unfold equipDelete
  cases hm : s.equipGet pid uuid with
  | none => exact h
  | some e =>
    simp only
    cases hcfg : cfg.equip e.gid with
    | none => exact h
    | some ecfg =>
      obtain ⟨hzero, hvalues⟩ := payback_spec cfg e ecfg ((s.sets pid).values uuid) flag
      have hback := hok e ecfg hm hcfg
      simp only at hback ⊢
      generalize payback cfg e ecfg ((s.sets pid).values uuid) flag = back at hzero hvalues hback
      split
      case isTrue hfail =>
        have hunpaid : ∀ v ∈ back.2,
            paidOut (back.1.rewardCommit cfg.itemPackages pid online grants inserted).2 v.2 = false := by
          intro v hv
          cases hentry : v.2 with
          | none => rfl
          | some n =>
            refine commit_failed hfail (hzero n) (hback.imp_right (.imp_right (.imp_right (.imp_right fun hnone => ?_))))
            intro c hc hcn
            exact hnone v hv c hc (hentry.trans (congrArg some hcn.symm))
        rw [markPaid_unpaid hunpaid, hvalues]
        exact h.replace hm (h.held hm) (fun v hv => ⟨(h.owned uuid).uid pid v hv, h.unpaid pid uuid v hv⟩)
          (fun _ _ => le_rfl) (h.consumed pid uuid)
      case isFalse =>
        obtain ⟨rfl, hpid⟩ := h.held hm
        refine ⟨h.owned.delete pid e, ?_, h.nonneg, ?_, ?_, ?_⟩
        · intro p w id
          cases values_put_cases s.sets pid e.uuid none [] p w with
          | inl hput => exact (congrArg (stored rewardTypeItem id) hput).trans_le (h.consumed p w id)
          | inr hput => exact (congrArg (stored rewardTypeItem id) hput.2.2).trans_le (h.nonneg w id)
        · intro p w v hv
          cases values_put_cases s.sets pid e.uuid none [] p w with
          | inl hput => exact h.unpaid p w v (hput ▸ hv)
          | inr hput => exact absurd (hput.2.2 ▸ hv) not_mem_nil
        · intro v hv
          cases mem_append.mp hv with
          | inl hv => exact h.gone v hv
          | inr hv =>
            obtain ⟨v', hv', rfl⟩ := mem_map.mp hv
            have hmem : v'.1 ∈ (s.sets pid).values e.uuid := hvalues ▸ mem_map_of_mem hv'
            have hzero := h.unpaid pid e.uuid v'.1 hmem
            split
            · exact (congrArg (· + 1) hzero).le
            · exact hzero.le.trans zero_le_one
        · intro w hw p
          cases mem_cons.mp hw with
          | inl hw =>
            refine (congrFun (m_put s.sets pid e.uuid none [] w) p).trans ?_
            rw [if_pos hw]
            by_cases hp : p = pid
            · rw [hp, update_self]
            · rw [update_of_ne hp, hw]
              by_contra hne
              exact hp ((h.owned e.uuid).single p pid hne fun hnone => nomatch hnone.symm.trans hm)
          | inr hw =>
            cases m_put_cases s.sets pid e.uuid none [] p w with
            | inl hput => exact hput.trans (h.deleted w hw p)
            | inr hput => exact hput.2.2

/-! ## Runs -/

theorem step_kept (cfg : InvestConfig) (s : InvestState) (a : InvestAct) (h : Kept s) (hplayed : a.Played)
    (hok : PaysOnce cfg s a) : ∃ s', step cfg s a = .ok s' ∧ Kept s' := by
  cases a with
  | refresh pid uuid index confirm choice => exact ⟨_, rfl, refresh_kept cfg h hplayed uuid index confirm choice⟩
  | grow pid uuid count rolls => exact ⟨_, rfl, grow_kept cfg h hplayed uuid count rolls⟩
  | trade talented seller buyer holder uuid =>
    rw [step]
    cases hm : s.equipGet holder uuid with
    | none => exact ⟨s, rfl, h⟩
    | some e =>
      obtain ⟨ret, sets, ht, -⟩ := EquipStore.equipTrade_spec h.owned talented seller buyer hm
      refine ⟨{ s with sets := sets }, ?_, trade_kept h hm ht⟩
      simp only [ht, ok_bind]
      rfl
  | delete pid uuid flag online grants inserted => exact ⟨_, rfl, delete_kept cfg h hok⟩
  | inventory pid inv => exact ⟨_, rfl, h.consume _ fun _ _ => le_rfl⟩
  | wear pid uuid heroUuid placeholder =>
    rw [step]
    cases hm : s.equipGet pid uuid with
    | none => exact ⟨s, rfl, h⟩
    | some e =>
      obtain ⟨hu, hp⟩ := h.held hm
      exact ⟨_, rfl, h.setEquip hm ⟨hu, hp⟩⟩

/-- Equips in the sets of their owners, of which nothing has been stored. -/
structure Fresh (s : InvestState) : Prop where
  held : ∀ p u e, (s.sets p).m u = some e → e.uuid = u ∧ e.pid = p
  single : ∀ p q u, (s.sets p).m u ≠ none → (s.sets q).m u ≠ none → p = q
  empty : ∀ p u, (s.sets p).values u = []
  consumed : ∀ u id, s.consumed u id = 0
  gone : s.gone = []
  deleted : s.deleted = []

theorem Fresh.kept (h : Fresh s) : Kept s where
  owned := fun u => ⟨fun p => h.held p u, fun p q => h.single p q u, fun p hv => absurd (h.empty p u) hv, fun p v hv => by
    rw [h.empty] at hv
    exact absurd hv not_mem_nil⟩
  consumed := fun p u id => by
    rw [h.empty, h.consumed]
    exact le_rfl
  nonneg := fun u id => (h.consumed u id).ge
  unpaid := fun p u v hv => by
    rw [h.empty] at hv
    exact absurd hv not_mem_nil
  gone := fun v hv => by
    rw [h.gone] at hv
    exact absurd hv not_mem_nil
  deleted := fun u hu => by
    rw [h.deleted] at hu
    exact absurd hu not_mem_nil

/-- In a run of players in which no deletion pays something back and then fails, what is stored in an equip has been
consumed for it, is paid out at most once and is gone with the equip. -/
theorem investment_conserved (cfg : InvestConfig) (s : InvestState) (h : Fresh s) (acts : List InvestAct)
    (hplayed : ∀ a ∈ acts, a.Played) (hpays : Along (step cfg) (PaysOnce cfg) s acts) :
    (∃ s', run (step cfg) s acts = .ok s') ∧ Throughout (step cfg) Conserved s acts := by
  have hall : Along (step cfg) (fun _ a => a.Played) s acts := along_of_forall acts s hplayed
  have halong := hall.and hpays
  constructor
  · obtain ⟨s', hrun, -⟩ := run_ok (P := Kept) (fun s a hs ha => step_kept cfg s a hs ha.1 ha.2) acts s h.kept halong
    exact ⟨s', hrun⟩
  · refine run_throughout (P := Kept) (fun _ hs => hs.conserved) (fun s a s' hs ha hstep => ?_) acts s h.kept halong
    obtain ⟨s₁, hstep₁, hkept⟩ := step_kept cfg s a hs ha.1 ha.2
    exact ok_unique hstep₁ hstep ▸ hkept

def halfStored : InvestConfig where
  affix := fun id => if id = 1 then some ⟨1, ⟨41, 90002, 10⟩, 1, 5, [⟨41, 90003, 4⟩], ⟨0, 0, 0⟩⟩ else none
  equip := fun gid => if gid = 7 then some ⟨0, []⟩ else none
  upgrade := fun _ _ => none
  common9 := none
  common14 := some 5000
  common15 := some 5000
  affixValue := fun _ a _ => a.value + a.grow
  affixMax := fun _ _ => 100
  consumePackages := fun _ => none
  itemPackages := fun _ => false
  refresh_payable := by
    intro id c h
    split at h
    · obtain rfl := some.inj h
      exact .inr (by decide)
    · exact nomatch h
  grow_payable := by
    intro id c h d hd
    split at h
    · obtain rfl := some.inj h
      rw [mem_singleton.mp hd]
      exact .inr (by decide)
    · exact nomatch h
  refresh_ratio := fun r h => (some.inj h).symm.trans_le (by decide)
  grow_ratio := fun r h => (some.inj h).symm.trans_le (by decide)

/-- The player 100001 has an equip with that affix, and enough of both items; everybody else has the first one only. -/
def oneEquip : InvestState where
  sets := fun p => ⟨fun u => if p = 100001 ∧ u = 1 then
    some ⟨⟨1, 100001, 0, 0⟩, 1, 7, 1, 0, fun i => if i = 1 then ⟨1, 20, 0⟩ else ⟨0, 0, 0⟩⟩ else none, fun _ => []⟩
  inventory := fun p =>
    ⟨fun id => if id = 90002 ∨ id = 90003 ∧ p = 100001 then some 100 else none, fun _ _ => none, fun _ => 0⟩
  refreshInfo := fun _ => ⟨0, 0, 0, 0⟩
  consumed := fun _ _ => 0
  gone := []
  deleted := []

theorem fresh_oneEquip : Fresh oneEquip where
  held := by
    intro p u e h
    change (if p = 100001 ∧ u = 1 then some _ else none) = some e at h
    split at h
    case isTrue hp =>
      obtain rfl := some.inj h
      exact ⟨hp.2.symm, hp.1.symm⟩
    case isFalse => exact nomatch h
  single := by
    have howner : ∀ p u, (oneEquip.sets p).m u ≠ none → p = 100001 := by
      intro p u h
      by_contra hp
      exact h (if_neg fun hpu => hp hpu.1)
    exact fun p q u hp hq => (howner p u hp).trans (howner q u hq).symm
  empty := fun _ _ => rfl
  consumed := fun _ _ => rfl
  gone := rfl
  deleted := rfl

theorem investment_conserved_traded :
    (∃ s', run (step halfStored) oneEquip
      [.refresh 100001 1 1 3 (some (1, 30)), .grow 100001 1 1 fun _ => 2, .trade false 100001 100002 100001 1,
        .delete 100002 1 2 true (fun e _ => e == 0) true] = .ok s') ∧
      Throughout (step halfStored) Conserved oneEquip
        [.refresh 100001 1 1 3 (some (1, 30)), .grow 100001 1 1 fun _ => 2, .trade false 100001 100002 100001 1,
          .delete 100002 1 2 true (fun e _ => e == 0) true] := by
  refine investment_conserved halfStored oneEquip fresh_oneEquip _ ?_ ?_
  · intro a ha
    simp only [mem_cons, not_mem_nil, or_false] at ha
    rcases ha with rfl | rfl | rfl | rfl
    · exact (by decide : aiMaxId < 100001)
    · exact (by decide : aiMaxId < 100001)
    · trivial
    · trivial
  · refine ⟨trivial, fun _ _ => ⟨trivial, fun _ _ => ⟨trivial, fun _ _ => ⟨?_, fun _ _ => trivial⟩⟩⟩⟩
    exact fun _ _ _ _ => .inl rfl

/-- The buyer has no record of the second item, and the database is gone: the first value is granted, the second refused and
not stored. The equip and both values stay, and the next deletion grants the first value again. -/
theorem paid_twice : ¬ Throughout (step halfStored) Conserved oneEquip
    [.refresh 100001 1 1 3 (some (1, 30)), .grow 100001 1 1 fun _ => 2, .trade false 100001 100002 100001 1,
      .delete 100002 1 2 true (fun e _ => e == 0) false, .delete 100002 1 2 true (fun e _ => e == 0) false] := by
  intro h
  have hpaid : ((run (step halfStored) oneEquip
      [.refresh 100001 1 1 3 (some (1, 30)), .grow 100001 1 1 fun _ => 2, .trade false 100001 100002 100001 1,
        .delete 100002 1 2 true (fun e _ => e == 0) false,
        .delete 100002 1 2 true (fun e _ => e == 0) false]).toOption.map
      fun s => ((s.sets 100002).values 1).map EquipValue.paid) = some [2, 0] := by
    decide +kernel
  obtain ⟨s', hsome, hlist⟩ := map_eq_some_iff.mp hpaid
  cases hrun : run (step halfStored) oneEquip _ with
  | error e =>
    rw [hrun] at hsome
    exact nomatch hsome
  | ok s₁ =>
    rw [hrun] at hsome
    obtain rfl := some.inj hsome
    have htwice : 2 ∈ ((s₁.sets 100002).values 1).map EquipValue.paid := hlist ▸ mem_cons_self
    obtain ⟨v, hv, hpaidv⟩ := mem_map.mp htwice
    have honce := (h.last hrun).once 100002 1 v hv
    omega

end InvestState
end CServer.Logic
