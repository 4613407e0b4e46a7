import CServer.Logic.EquipAffix

/-! # `world/logic/aL.c`: an affix that is rolled and then confirmed

`aL_equip_refresh_property` rolls a new affix with the first bit of `confirm` and puts it into the equip with the second, in
one request or in two. What was rolled waits in the check data of the player, in which the next roll replaces it. A
request that confirms names an index as well, and the growth that the new affix keeps is that of the index named, not of
the one that was rolled.
-/
namespace CServer.Logic
open CServer.Lib CServer.Modules Function Option

/-! ## The code -/

/-- The affixes by id, which the pools have theirs from. -/
structure RefreshTables extends InvestConfig where
  property : ℤ → Option AffixProperty
  property_id : ∀ id p, property id = some p → p.id = id
  pools : AffixPools
  pooled : ∀ id items, pools id = some items → ∀ ite ∈ items, property ite.cfg.id = some ite.cfg

/-- A request, with the player's inventory and the numbers that `rand` gives. -/
structure RefreshRequest where
  pid : ℕ
  uuid : ℕ
  index : ℕ
  confirm : ℕ
  inv : Inventory
  rand : Rand

variable (t : RefreshTables)

def RefreshTables.typeOf (id : ℤ) : ℤ := if id = 0 then 0 else (t.property id).elim 0 AffixProperty.type

def RefreshTables.typeAt (equip : OwnedEquip) (i : ℕ) : ℤ := t.typeOf (equip.affix i).id

def refreshExclude (equip : OwnedEquip) (index : ℕ) : ℕ → ℤ := fun k =>
  if k + 1 = index ∨ equipPropertyPoolMax ≤ k then 0 else t.typeAt equip (k + 1)

variable (s : InvestState)

variable (q : RefreshRequest)

/-- What `affix_pool_choose` gives for a request, where the request gets as far. -/
def refreshChoice : Option (ℤ × ℤ) := do
  let equip ← s.equipGet q.pid q.uuid
  let affix ← equip.getAffix q.index
  let cfg ← t.affix affix.id
  let (acfg, value) ← (affixPoolChoose t.pools cfg.refreshPool (refreshExclude t equip q.index) q.rand).1
  some (acfg.id, value)

def refresh : ℤ × InvestState :=
  { s with inventory := update s.inventory q.pid q.inv }.refreshProperty t.toInvestConfig q.pid q.uuid q.index
    q.confirm (refreshChoice t s q)

/-! ## What a request does -/

def InvestState.equips : ℕ → ℕ → Option OwnedEquip := fun pid => (s.sets pid).m

def InvestState.Keyed : Prop := ∀ pid uuid e, s.equips pid uuid = some e → e.uuid = uuid

def AffixRefreshInfo.none : AffixRefreshInfo := ⟨0, 0, 0, 0⟩

def Rolled (choice : Option (ℤ × ℤ)) (info : AffixRefreshInfo) : Prop :=
  if q.confirm.testBit 0 = true then choice = some (info.gid, info.value) ∧ info.uuid = q.uuid ∧ info.index = q.index
  else info = s.refreshInfo q.pid

def confirmed (info : AffixRefreshInfo) (e : OwnedEquip) : OwnedEquip :=
  e.updateAffix info.index ⟨info.gid, info.value, (e.affix q.index).grow⟩

/-- A request that succeeds has rolled if it asked for it, and then put what is rolled into the equip if it confirms. -/
structure Refreshed (s : InvestState) (q : RefreshRequest) (choice : Option (ℤ × ℤ)) (e : OwnedEquip)
    (info : AffixRefreshInfo) (s' : InvestState) : Prop where
  found : s.equips q.pid q.uuid = some e
  slot : 1 ≤ q.index ∧ q.index ≤ equipPropertyPool
  rolled : Rolled s q choice info
  kept : q.confirm.testBit 1 = false →
    s'.equips = s.equips ∧ s'.refreshInfo = update s.refreshInfo q.pid info
  put : q.confirm.testBit 1 = true → info.uuid = q.uuid ∧
    s'.equips = update s.equips q.pid (update (s.equips q.pid) q.uuid (some (confirmed q info e))) ∧
    s'.refreshInfo = update s.refreshInfo q.pid .none

section Request
variable {s : InvestState} {q : RefreshRequest} {choice : Option (ℤ × ℤ)}

theorem payCost_equips (packages : ConsumePackages) (pid : ℕ) (equip : OwnedEquip) (c : CostConfig) (ratio : Option ℤ) :
    (s.payCost packages pid equip c ratio).2.equips = s.equips ∧
      (s.payCost packages pid equip c ratio).2.refreshInfo = s.refreshInfo := by
  unfold InvestState.payCost
  simp only
  split
  · exact ⟨rfl, rfl⟩
  · split
    · exact ⟨rfl, rfl⟩
    · split
      · refine ⟨?_, rfl⟩
        funext p
        unfold InvestState.equips
        by_cases hp : p = pid
        · subst hp
          simp only [update_self, EquipStore.equipAddValue]
          split
          · rfl
          · rfl
        · simp only [update_of_ne hp]
      · exact ⟨rfl, rfl⟩

theorem setEquip_equips (pid : ℕ) (e : OwnedEquip) : (s.setEquip pid e).equips =
    update s.equips pid (update (s.equips pid) e.uuid (some e)) := by
  funext p
  unfold InvestState.setEquip InvestState.equips
  by_cases hp : p = pid
  · subst hp
    simp only [update_self, EquipStore.put]
  · simp only [update_of_ne hp]

theorem confirmRefresh_cases {e : OwnedEquip} (hu : e.uuid = q.uuid) (grow : ℤ) :
    (s.confirmRefresh q.pid q.confirm e grow).1 = retSuccess ∧
        (q.confirm.testBit 1 = false → (s.confirmRefresh q.pid q.confirm e grow).2 = s) ∧
        (q.confirm.testBit 1 = true → (s.refreshInfo q.pid).uuid = q.uuid ∧
          (s.confirmRefresh q.pid q.confirm e grow).2.equips = update s.equips q.pid
            (update (s.equips q.pid) q.uuid (some (e.updateAffix (s.refreshInfo q.pid).index
              ⟨(s.refreshInfo q.pid).gid, (s.refreshInfo q.pid).value, grow⟩))) ∧
          (s.confirmRefresh q.pid q.confirm e grow).2.refreshInfo = update s.refreshInfo q.pid .none) ∨
      (s.confirmRefresh q.pid q.confirm e grow) = (retParamError, s) ∧ (s.refreshInfo q.pid).uuid ≠ q.uuid := by
  unfold InvestState.confirmRefresh
  by_cases hbit : q.confirm.testBit 1 = true
  · rw [if_pos hbit]
    simp only
    by_cases huuid : (s.refreshInfo q.pid).uuid = e.uuid
    · left
      rw [if_neg (not_not.mpr huuid)]
      refine ⟨rfl, fun h => absurd (hbit.symm.trans h) (by decide), fun _ => ⟨huuid.trans hu, ?_, rfl⟩⟩
      have hsame := (InvestState.updateAffix_same e (s.refreshInfo q.pid).index
        ⟨(s.refreshInfo q.pid).gid, (s.refreshInfo q.pid).value, grow⟩).1
      have hset := @setEquip_equips s q.pid (e.updateAffix (s.refreshInfo q.pid).index
        ⟨(s.refreshInfo q.pid).gid, (s.refreshInfo q.pid).value, grow⟩)
      rw [hsame, hu] at hset
      exact hset
    · right
      rw [if_pos huuid]
      exact ⟨rfl, fun h => huuid (h.trans hu.symm)⟩
  · left
    rw [if_neg hbit]
    exact ⟨rfl, fun _ => rfl, fun h => absurd h hbit⟩

theorem refreshProperty_cases (cfg : InvestConfig) (hkeyed : s.Keyed) :
    (s.refreshProperty cfg q.pid q.uuid q.index q.confirm choice).1 ≠ retSuccess ∧
        (s.refreshProperty cfg q.pid q.uuid q.index q.confirm choice).2.equips = s.equips ∧
        (s.refreshProperty cfg q.pid q.uuid q.index q.confirm choice).2.refreshInfo = s.refreshInfo ∨
      (s.refreshProperty cfg q.pid q.uuid q.index q.confirm choice).1 = retSuccess ∧ ∃ e info,
        Refreshed s q choice e info (s.refreshProperty cfg q.pid q.uuid q.index q.confirm choice).2 := by
  have hrefused : ∀ ret : ℤ, ret ≠ retSuccess → ret ≠ retSuccess ∧ s.equips = s.equips ∧ s.refreshInfo = s.refreshInfo :=
    fun _ h => ⟨h, rfl, rfl⟩
  have hmissing : retNotExist ≠ retSuccess := by decide
  have hparam : retParamError ≠ retSuccess := by decide
  have herror : retError ≠ retSuccess := by decide
  unfold InvestState.refreshProperty
  cases hfound : s.equipGet q.pid q.uuid with
  | none => exact .inl (hrefused _ hmissing)
  | some e =>
    simp only
    cases haffix : e.getAffix q.index with
    | none => exact .inl (hrefused _ hparam)
    | some affix =>
      simp only
      have hslot : (1 ≤ q.index ∧ q.index ≤ equipPropertyPool) ∧ affix = e.affix q.index := by
        unfold OwnedEquip.getAffix at haffix
        split at haffix
        case isTrue h => exact ⟨h, (some.inj haffix).symm⟩
        case isFalse => cases haffix
      obtain ⟨hslot, rfl⟩ := hslot
      split
      · exact .inl (hrefused _ hparam)
      · cases cfg.affix (e.affix q.index).id with
        | none => exact .inl (hrefused _ herror)
        | some acfg =>
          simp only
          split
          · exact .inl (hrefused _ herror)
          · have hu := hkeyed q.pid q.uuid e hfound
            by_cases hroll : q.confirm.testBit 0 = true
            · rw [if_pos hroll]
              cases choice with
              | none => exact .inl (hrefused _ herror)
              | some choice =>
                obtain ⟨gid, value⟩ := choice
                simp only
                obtain ⟨hequips, hinfo⟩ := @payCost_equips s cfg.consumePackages q.pid e acfg.refreshCost cfg.common14
                generalize s.payCost cfg.consumePackages q.pid e acfg.refreshCost cfg.common14 = paid at hequips hinfo
                split
                · exact .inl ⟨hmissing, hequips, hinfo⟩
                · have hrolled : Rolled s q (some (gid, value)) ⟨q.uuid, q.index, gid, value⟩ := by
                    rw [Rolled, if_pos hroll]
                    exact ⟨rfl, rfl, rfl⟩
                  obtain ⟨hret, hkept, hput⟩ | ⟨-, hne⟩ := @confirmRefresh_cases { paid.2 with
                    refreshInfo := update paid.2.refreshInfo q.pid ⟨q.uuid, q.index, gid, value⟩ } q e hu
                    (e.affix q.index).grow
                  · refine .inr ⟨hret, e, _, hfound, hslot, hrolled, fun hbit => ?_, fun hbit => ?_⟩
                    · rw [hkept hbit]
                      exact ⟨hequips, by rw [hinfo]⟩
                    · obtain ⟨-, hequips', hinfo'⟩ := hput hbit
                      simp only [update_self] at hequips'
                      refine ⟨rfl, hequips'.trans ?_, hinfo'.trans ?_⟩
                      · rw [confirmed, ← hequips]
                        rfl
                      · simp only [hinfo, update_idem]
                  · exact absurd (by simp only [update_self]) hne
            · rw [if_neg hroll]
              have hrolled : Rolled s q choice (s.refreshInfo q.pid) := by
                rw [Rolled, if_neg hroll]
              obtain ⟨hret, hkept, hput⟩ | ⟨hfail, -⟩ := @confirmRefresh_cases s q e hu (e.affix q.index).grow
              · refine .inr ⟨hret, e, _, hfound, hslot, hrolled, fun hbit => ?_, fun hbit => hput hbit⟩
                rw [hkept hbit, update_eq_self]
                exact ⟨rfl, rfl⟩
              · rw [hfail]
                exact .inl (hrefused _ hparam)

end Request

/-! ## What requests should do -/

/-- What one player should see: the equips, the last roll while it has not been applied, how often was rolled, and which
of these rolls have been applied. -/
structure RefreshView where
  equips : ℕ → Option OwnedEquip
  pending : Option AffixRefreshInfo
  rolls : ℕ
  applied : List ℕ

namespace RefreshView

def roll (v : RefreshView) (info : AffixRefreshInfo) : RefreshView :=
  { v with
    pending := some info
    rolls := v.rolls + 1 }

end RefreshView

def AffixRefreshInfo.applyTo (info : AffixRefreshInfo) (e : OwnedEquip) : OwnedEquip :=
  e.updateAffix info.index ⟨info.gid, info.value, (e.affix info.index).grow⟩

namespace RefreshView

def confirm (v : RefreshView) (uuid : ℕ) : RefreshView :=
  match v.pending with
  | none => v
  | some info =>
    if info.uuid = uuid then
      { v with
        equips := update v.equips uuid ((v.equips uuid).map info.applyTo)
        pending := none
        applied := v.rolls :: v.applied }
    else v

def after (v : RefreshView) (q : RefreshRequest) (choice : Option (ℤ × ℤ)) : RefreshView :=
  let v := if q.confirm.testBit 0 then choice.elim v fun c => v.roll ⟨q.uuid, q.index, c.1, c.2⟩ else v
  if q.confirm.testBit 1 then v.confirm q.uuid else v

end RefreshView

/-- The request as it is and as it should be; one that fails should do nothing. -/
def refreshStep (w : InvestState × (ℕ → RefreshView)) (q : RefreshRequest) :
    Except Fault (InvestState × (ℕ → RefreshView)) :=
  let r := refresh t w.1 q
  .ok (r.2, if r.1 = retSuccess then
    update w.2 q.pid ((w.2 q.pid).after q (refreshChoice t w.1 q)) else w.2)

def RefreshTables.Fits (info : AffixRefreshInfo) (e : OwnedEquip) : Prop :=
  ∀ i, 1 ≤ i → i ≤ equipPropertyPool → i ≠ info.index → t.typeAt e i = t.typeOf info.gid → t.typeAt e i = 0

/-- No two slots have affixes of the same property type; 0 is none. -/
def RefreshTables.Apart (e : OwnedEquip) : Prop :=
  ∀ i j, 1 ≤ i → i ≤ equipPropertyPool → 1 ≤ j → j ≤ equipPropertyPool → i ≠ j →
    t.typeAt e i = t.typeAt e j → t.typeAt e i = 0

/-- The equips and the check data are what the player should see, no roll is applied twice, and what waits fits. -/
structure Follows (t : RefreshTables) (equips : ℕ → Option OwnedEquip) (cache : AffixRefreshInfo) (v : RefreshView) :
    Prop where
  keyed : ∀ uuid e, equips uuid = some e → e.uuid = uuid
  seen : equips = v.equips
  waiting : cache = v.pending.getD .none
  once : v.applied.Nodup
  made : ∀ n ∈ v.applied, n ≤ v.rolls
  fresh : v.pending ≠ none → v.rolls ∉ v.applied
  fits : ∀ info, v.pending = some info → (1 ≤ info.index ∧ info.index ≤ equipPropertyPool) ∧
    ∀ e, equips info.uuid = some e → t.Fits info e

section Follow
variable {t : RefreshTables} {equips : ℕ → Option OwnedEquip} {cache info : AffixRefreshInfo} {v : RefreshView} {uuid : ℕ}
  {e : OwnedEquip}

theorem Follows.roll (h : Follows t equips cache v) (hslot : 1 ≤ info.index ∧ info.index ≤ equipPropertyPool)
    (hfits : ∀ e, equips info.uuid = some e → t.Fits info e) : Follows t equips info (v.roll info) where
  keyed := h.keyed
  seen := h.seen
  waiting := rfl
  once := h.once
  made n hn := Nat.le_succ_of_le (h.made n hn)
  fresh := by
    intro _ hmem
    have hle := h.made _ hmem
    simp only [RefreshView.roll] at hle
    omega
  fits i hi := some.inj hi ▸ ⟨hslot, hfits⟩

theorem updateAffix_affix {i : ℕ} (hslot : 1 ≤ i ∧ i ≤ equipPropertyPool) (a : EquipAffixInfo) (j : ℕ) :
    (e.updateAffix i a).affix j = if j = i then a else e.affix j := by
  rw [OwnedEquip.updateAffix, if_pos hslot]
  exact update_apply _ _ _ _

theorem applyTo_typeAt (hslot : 1 ≤ info.index ∧ info.index ≤ equipPropertyPool) (i : ℕ) :
    t.typeAt (info.applyTo e) i = if i = info.index then t.typeOf info.gid else t.typeAt e i := by
  unfold RefreshTables.typeAt AffixRefreshInfo.applyTo
  rw [updateAffix_affix hslot]
  split
  · rfl
  · rfl

theorem Apart.applyTo (hslot : 1 ≤ info.index ∧ info.index ≤ equipPropertyPool) (hfits : t.Fits info e) (h : t.Apart e) :
    t.Apart (info.applyTo e) := by
  intro i j hi hi' hj hj' hne heq
  rw [applyTo_typeAt hslot, applyTo_typeAt hslot] at heq
  rw [applyTo_typeAt hslot]
  by_cases hii : i = info.index
  · rw [if_pos hii] at heq ⊢
    have hji : j ≠ info.index := fun hji => hne (hii.trans hji.symm)
    rw [if_neg hji] at heq
    exact heq.trans (hfits j hj hj' hji heq.symm)
  · rw [if_neg hii] at heq ⊢
    by_cases hji : j = info.index
    · rw [if_pos hji] at heq
      exact hfits i hi hi' hii heq
    · rw [if_neg hji] at heq
      exact h i j hi hi' hj hj' hne heq

theorem none_applyTo : AffixRefreshInfo.none.applyTo e = e := by
  unfold AffixRefreshInfo.applyTo OwnedEquip.updateAffix AffixRefreshInfo.none
  exact if_neg fun h => absurd h.1 (by decide)

theorem applyTo_uuid : (info.applyTo e).uuid = e.uuid := (InvestState.updateAffix_same e _ _).1

theorem keyed_update (hkeyed : ∀ uuid e, equips uuid = some e → e.uuid = uuid) (he : equips uuid = some e) {u : ℕ}
    {e' : OwnedEquip} (h : update equips uuid (some (info.applyTo e)) u = some e') : e'.uuid = u := by
  by_cases hu : u = uuid
  · rw [hu, update_self] at h
    rw [← some.inj h, applyTo_uuid, hu]
    exact hkeyed uuid e he
  · rw [update_of_ne hu] at h
    exact hkeyed u e' h

theorem Follows.confirm (h : Follows t equips cache v) (hcache : cache.uuid = uuid) (he : equips uuid = some e) :
    Follows t (update equips uuid (some (cache.applyTo e))) .none (v.confirm uuid) := by
  have hwaiting := h.waiting
  have hkeyed := fun u e' => @keyed_update equips cache uuid e h.keyed he u e'
  unfold RefreshView.confirm
  cases hpending : v.pending with
  | none =>
    rw [hpending, getD_none] at hwaiting
    have hsame : update equips uuid (some (cache.applyTo e)) = equips := by
      rw [hwaiting, none_applyTo, ← he, update_eq_self]
    simp only
    rw [hsame]
    exact ⟨h.keyed, h.seen, by rw [hpending, getD_none], h.once, h.made, h.fresh, h.fits⟩
  | some info =>
    rw [hpending, getD_some] at hwaiting
    obtain rfl := hwaiting
    simp only
    rw [if_pos hcache]
    refine ⟨hkeyed, ?_, rfl, ?_, ?_, fun hne => absurd rfl hne, fun _ hi => nomatch hi⟩
    · simp only [← h.seen, he, map_some]
    · exact List.nodup_cons.mpr ⟨h.fresh (by rw [hpending]; exact some_ne_none _), h.once⟩
    · exact fun n hn => (List.mem_cons.mp hn).elim (fun heq => le_of_eq heq) (h.made n)

theorem Follows.confirm_apart (h : Follows t equips cache v) (hcache : cache.uuid = uuid) (he : equips uuid = some e)
    (hapart : t.Apart e) : t.Apart (cache.applyTo e) := by
  have hwaiting := h.waiting
  cases hpending : v.pending with
  | none =>
    rw [hpending, getD_none] at hwaiting
    rwa [hwaiting, none_applyTo]
  | some info =>
    rw [hpending, getD_some] at hwaiting
    obtain rfl := hwaiting
    obtain ⟨hslot, hfits⟩ := h.fits _ hpending
    exact Apart.applyTo hslot (hfits e (hcache ▸ he)) hapart

end Follow

/-! ## Requests one after another -/

/-- A request that only confirms names an index that has grown as much as the one that was rolled. -/
def GrownAlike : Prop :=
  q.confirm.testBit 0 = false → q.confirm.testBit 1 = true → (s.refreshInfo q.pid).uuid = q.uuid →
    ∀ e, s.equips q.pid q.uuid = some e → (e.affix q.index).grow = (e.affix (s.refreshInfo q.pid).index).grow

section Step
variable {t : RefreshTables} {s : InvestState} {views : ℕ → RefreshView} {q : RefreshRequest}

theorem refreshChoice_fits {info : AffixRefreshInfo} (h : refreshChoice t s q = some (info.gid, info.value))
    (hindex : info.index = q.index) {e : OwnedEquip} (he : s.equips q.pid q.uuid = some e) : t.Fits info e := by
  have hget : s.equipGet q.pid q.uuid = some e := he
  unfold refreshChoice at h
  rw [hget] at h
  simp only [bind_eq_bind, bind_some, bind_eq_some_iff] at h
  obtain ⟨affix, -, cfg, -, ⟨acfg, value⟩, hchoose, hchosen⟩ := h
  obtain ⟨hgid, -⟩ := Prod.mk.inj (some.inj hchosen)
  obtain ⟨items, ite, hpool, hmem, hite, hout⟩ := affixPoolChoose_mem (Prod.ext hchoose rfl)
  intro i hi hi' hne heq
  by_contra htype
  have hproperty : t.property info.gid = some acfg := by
    rw [← hgid, ← hite]
    exact t.pooled _ items hpool ite hmem
  have htypeOf : t.typeOf info.gid = ite.cfg.type := by
    rw [RefreshTables.typeOf, if_neg, hproperty, hite]
    · rfl
    · intro h0
      rw [heq, RefreshTables.typeOf, if_pos h0] at htype
      exact htype rfl
  have hexclude : refreshExclude t e q.index (i - 1) = t.typeAt e i := by
    unfold refreshExclude
    have hle : equipPropertyPool = equipPropertyPoolMax := rfl
    rw [if_neg (by omega), Nat.sub_add_cancel hi]
  have hin : excluded (refreshExclude t e q.index) ite = true :=
    excluded_iff.mpr ⟨i - 1, by unfold equipPropertyPoolMax; unfold equipPropertyPool at hi'; omega,
      by rw [hexclude, heq, htypeOf], by rw [← htypeOf, ← heq]; exact htype⟩
  cases hout.symm.trans hin

theorem Rolled.follows {info : AffixRefreshInfo} (hrolled : Rolled s q (refreshChoice t s q) info)
    (hslot : 1 ≤ q.index ∧ q.index ≤ equipPropertyPool)
    (h : Follows t (s.equips q.pid) (s.refreshInfo q.pid) (views q.pid)) :
    Follows t (s.equips q.pid) info (if q.confirm.testBit 0 then (views q.pid).roll info else views q.pid) := by
  unfold Rolled at hrolled
  split at hrolled
  case isTrue hbit =>
    obtain ⟨hchoice, huuid, hindex⟩ := hrolled
    rw [if_pos hbit]
    refine h.roll (hindex ▸ hslot) fun e' he' => ?_
    rw [huuid] at he'
    exact refreshChoice_fits hchoice hindex he'
  case isFalse hbit =>
    rw [if_neg hbit, hrolled]
    exact h

theorem Rolled.after {info : AffixRefreshInfo} (hrolled : Rolled s q (refreshChoice t s q) info) (v : RefreshView) :
    v.after q (refreshChoice t s q) =
      let v := if q.confirm.testBit 0 then v.roll info else v
      if q.confirm.testBit 1 then v.confirm q.uuid else v := by
  unfold RefreshView.after
  unfold Rolled at hrolled
  by_cases hbit : q.confirm.testBit 0 = true
  · rw [if_pos hbit] at hrolled
    obtain ⟨hchoice, huuid, hindex⟩ := hrolled
    rw [hchoice, elim_some, ← huuid, ← hindex]
  · simp only [if_neg hbit]

theorem Rolled.confirmed {info : AffixRefreshInfo} {e : OwnedEquip} (hrolled : Rolled s q (refreshChoice t s q) info)
    (hgrown : GrownAlike s q) (he : s.equips q.pid q.uuid = some e) (hbit1 : q.confirm.testBit 1 = true)
    (huuid : info.uuid = q.uuid) : CServer.Logic.confirmed q info e = info.applyTo e := by
  unfold CServer.Logic.confirmed AffixRefreshInfo.applyTo
  unfold Rolled at hrolled
  split at hrolled
  case isTrue hbit => rw [hrolled.2.2]
  case isFalse hbit =>
    rw [hrolled] at huuid ⊢
    rw [hgrown (eq_false_of_ne_true hbit) hbit1 huuid e he]

theorem refreshStep_follows {s' : InvestState} {views' : ℕ → RefreshView}
    (h : ∀ pid, Follows t (s.equips pid) (s.refreshInfo pid) (views pid)) (hgrown : GrownAlike s q)
    (hstep : refreshStep t (s, views) q = .ok (s', views')) :
    (∀ pid, Follows t (s'.equips pid) (s'.refreshInfo pid) (views' pid)) ∧
      ∀ pid uuid e', s'.equips pid uuid = some e' → ∃ e, s.equips pid uuid = some e ∧ (t.Apart e → t.Apart e') := by
  obtain ⟨rfl, rfl⟩ := ok_pair_inj hstep
  have hcases := @refreshProperty_cases { s with inventory := update s.inventory q.pid q.inv } q
    (refreshChoice t s q) t.toInvestConfig fun pid => (h pid).keyed
  change (refresh t s q).1 ≠ retSuccess ∧ (refresh t s q).2.equips = s.equips ∧ (refresh t s q).2.refreshInfo =
    s.refreshInfo ∨ _ at hcases
  obtain ⟨hret, hequips, hinfo⟩ | ⟨hret, e, info, hdone⟩ := hcases
  · rw [if_neg hret, hequips, hinfo]
    exact ⟨h, fun pid uuid e' he' => ⟨e', he', id⟩⟩
  · have hret' : (refresh t s q).1 = retSuccess := hret
    have he : s.equips q.pid q.uuid = some e := hdone.found
    have hrolled : Rolled s q (refreshChoice t s q) info := hdone.rolled
    have hmid := hrolled.follows hdone.slot (h q.pid)
    rw [if_pos hret', hrolled.after]
    by_cases hbit : q.confirm.testBit 1 = true
    · obtain ⟨huuid, hequips, hinfo⟩ := hdone.put hbit
      change (refresh t s q).2.equips = _ at hequips
      change (refresh t s q).2.refreshInfo = _ at hinfo
      rw [hrolled.confirmed hgrown he hbit huuid] at hequips
      simp only [if_pos hbit, hequips, hinfo]
      constructor
      · intro pid
        by_cases hp : pid = q.pid
        · rw [hp]
          simp only [update_self]
          exact hmid.confirm huuid he
        · simp only [update_of_ne hp]
          exact h pid
      · intro pid uuid e' he'
        by_cases hp : pid = q.pid ∧ uuid = q.uuid
        · obtain ⟨rfl, rfl⟩ := hp
          simp only [update_self] at he'
          exact ⟨e, he, fun hapart => some.inj he' ▸ hmid.confirm_apart huuid he hapart⟩
        · refine ⟨e', ?_, id⟩
          by_cases hpid : pid = q.pid
          · have hu : uuid ≠ q.uuid := fun hu => hp ⟨hpid, hu⟩
            subst hpid
            simp only [update_self, update_of_ne hu] at he'
            exact he'
          · simp only [update_of_ne hpid] at he'
            exact he'
    · obtain ⟨hequips, hinfo⟩ := hdone.kept (eq_false_of_ne_true hbit)
      change (refresh t s q).2.equips = s.equips at hequips
      change (refresh t s q).2.refreshInfo = _ at hinfo
      simp only [if_neg hbit, hequips, hinfo]
      refine ⟨fun pid => ?_, fun pid uuid e' he' => ⟨e', he', id⟩⟩
      by_cases hp : pid = q.pid
      · rw [hp]
        simp only [update_self]
        exact hmid
      · simp only [update_of_ne hp]
        exact h pid

end Step

def RefreshView.start (equips : ℕ → Option OwnedEquip) : RefreshView := ⟨equips, none, 0, []⟩

theorem follows_start {t : RefreshTables} {s : InvestState} (hkeyed : s.Keyed) (hidle : ∀ pid, s.refreshInfo pid = .none)
    (pid : ℕ) : Follows t (s.equips pid) (s.refreshInfo pid) (.start (s.equips pid)) where
  keyed := hkeyed pid
  seen := rfl
  waiting := hidle pid
  once := List.nodup_nil
  made _ hn := absurd hn List.not_mem_nil
  fresh hne := absurd rfl hne
  fits _ hi := nomatch hi

/-- In every run of requests of any players in which those that confirm name an index grown as much as the one rolled, what was
rolled for an equip replaces the affix at its index and keeps the growth of that index, nothing else changes, and no roll is
applied twice. Property types of an equip that are apart stay apart. -/
theorem refreshRun_follows (hkeyed : s.Keyed)
    (hidle : ∀ pid, s.refreshInfo pid = .none) (before after : List RefreshRequest)
    (hgrown : Along (refreshStep t) (fun w q => GrownAlike w.1 q) (s, fun pid => .start (s.equips pid)) (before ++ after))
    (w w' : InvestState × (ℕ → RefreshView))
    (hbefore : run (refreshStep t) (s, fun pid => .start (s.equips pid)) before = .ok w)
    (hafter : run (refreshStep t) w after = .ok w') :
    (∀ pid, w'.1.equips pid = (w'.2 pid).equips ∧ (w'.2 pid).applied.Nodup) ∧
      ∀ pid uuid e e', w.1.equips pid uuid = some e → w'.1.equips pid uuid = some e' → t.Apart e → t.Apart e' := by
  obtain ⟨hgrownBefore, hgrownAfter⟩ := Along.append before after hgrown
  have hmiddle : ∀ pid, Follows t (w.1.equips pid) (w.1.refreshInfo pid) (w.2 pid) := by
    refine run_preserves (P := fun w => ∀ pid, Follows t (w.1.equips pid) (w.1.refreshInfo pid) (w.2 pid)) ?_ before _ w
      (follows_start hkeyed hidle) hgrownBefore hbefore
    exact fun _ _ _ h hg hs => (refreshStep_follows h hg hs).1
  have hend : (∀ pid, Follows t (w'.1.equips pid) (w'.1.refreshInfo pid) (w'.2 pid)) ∧
      ∀ pid uuid e', w'.1.equips pid uuid = some e' → ∃ e, w.1.equips pid uuid = some e ∧ (t.Apart e → t.Apart e') := by
    refine run_preserves (P := fun w' => (∀ pid, Follows t (w'.1.equips pid) (w'.1.refreshInfo pid) (w'.2 pid)) ∧
      ∀ pid uuid e', w'.1.equips pid uuid = some e' → ∃ e, w.1.equips pid uuid = some e ∧ (t.Apart e → t.Apart e')) ?_
      after w w' ⟨hmiddle, fun _ _ e he => ⟨e, he, id⟩⟩ (hgrownAfter w hbefore) hafter
    intro w₁ q w₂ h hg hs
    obtain ⟨hfollows, hapart⟩ := refreshStep_follows h.1 hg hs
    refine ⟨hfollows, fun pid uuid e₂ he₂ => ?_⟩
    obtain ⟨e₁, he₁, hstep⟩ := hapart pid uuid e₂ he₂
    obtain ⟨e, he, hrun⟩ := h.2 pid uuid e₁ he₁
    exact ⟨e, he, fun h => hstep (hrun h)⟩
  refine ⟨fun pid => ⟨(hend.1 pid).seen, (hend.1 pid).once⟩, fun pid uuid e e' he he' hapart => ?_⟩
  obtain ⟨e₀, he₀, himp⟩ := hend.2 pid uuid e' he'
  rw [some_unique he he₀] at hapart
  exact himp hapart

theorem ten_le_twenty : (10 : ℤ) ≤ 20 := by decide

def oneThird : RefreshTables where
  affix := fun _ => some ⟨1, ⟨41, 90002, 10⟩, 1, 5, [], ⟨0, 0, 0⟩⟩
  equip := fun _ => none
  upgrade := fun _ _ => none
  common9 := none
  common14 := none
  common15 := none
  affixValue := fun _ a _ => a.value + a.grow
  affixMax := fun _ _ => 100
  consumePackages := fun _ => none
  itemPackages := fun _ => false
  refresh_payable := fun _ c h => by
    rw [← some.inj h]
    exact .inr (by decide)
  grow_payable := fun _ c h d hd => by
    rw [← some.inj h] at hd
    exact absurd hd List.not_mem_nil
  refresh_ratio := fun _ h => nomatch h
  grow_ratio := fun _ h => nomatch h
  property := fun id => some ⟨id, id, ⟨10, 20, ten_le_twenty⟩⟩
  property_id := fun _ _ h => by rw [← some.inj h]
  pools := fun id => if id = 1 then some [⟨⟨3, 3, ⟨10, 20, ten_le_twenty⟩⟩, 4⟩] else none
  pooled := fun _ items h ite hite => by
    split at h
    · rw [← some.inj h] at hite
      rw [List.mem_singleton.mp hite]
    · cases h

def oneGrown : InvestState where
  sets := fun p => ⟨fun u => if p = 100001 ∧ u = 1 then
    some ⟨⟨1, 100001, 0, 0⟩, 1, 7, 1, 0, fun i => if i = 1 then ⟨1, 12, 0⟩ else if i = 2 then ⟨2, 15, 5⟩ else ⟨0, 0, 0⟩⟩
    else none, fun _ => []⟩
  inventory := fun _ => ⟨fun _ => none, fun _ _ => none, fun _ => 0⟩
  refreshInfo := fun _ => .none
  consumed := fun _ _ => 0
  gone := []
  deleted := []

theorem oneGrown_keyed : oneGrown.Keyed := by
  intro pid uuid e h
  change (if pid = 100001 ∧ uuid = 1 then some _ else none) = some e at h
  split at h
  case isTrue hp => rw [← some.inj h, hp.2]
  case isFalse => cases h

/-- A request about that equip, of a player with 100 coins. -/
def refreshOf (index confirm : ℕ) : RefreshRequest :=
  ⟨100001, 1, index, confirm, ⟨fun id => if id = 90002 then some 100 else none, fun _ _ => none, fun _ => 0⟩, fun _ => 3⟩

theorem refreshRun_follows_first : ∃ w w',
    run (refreshStep oneThird) (oneGrown, fun pid => .start (oneGrown.equips pid)) [refreshOf 1 1] = .ok w ∧
      run (refreshStep oneThird) w [refreshOf 1 2] = .ok w' ∧
      ((w'.1.equips 100001 1).map fun e => ((e.affix 1).id, (e.affix 1).grow)) = some (3, 0) ∧
      (∀ pid, w'.1.equips pid = (w'.2 pid).equips ∧ (w'.2 pid).applied.Nodup) ∧
      ∀ pid uuid e e', w.1.equips pid uuid = some e → w'.1.equips pid uuid = some e' →
        oneThird.Apart e → oneThird.Apart e' := by
  refine ⟨_, _, rfl, rfl, by decide +kernel, ?_⟩
  refine refreshRun_follows oneThird oneGrown oneGrown_keyed (fun _ => rfl) [refreshOf 1 1] [refreshOf 1 2] ?_ _ _ rfl rfl
  refine ⟨fun h => absurd h (by decide), fun w hw => ⟨fun _ _ _ e _ => ?_, fun _ _ => trivial⟩⟩
  have hindex : (w.1.refreshInfo 100001).index = 1 := by
    rw [← Except.ok.inj hw]
    decide +kernel
  rw [show (refreshOf 1 2).pid = 100001 from rfl, hindex]
  rfl

/-- Confirmed at the second index, the affix that was rolled for the first gets the growth of the second. -/
theorem refresh_takes_other_growth : ∃ w',
    run (refreshStep oneThird) (oneGrown, fun pid => .start (oneGrown.equips pid)) [refreshOf 1 1, refreshOf 2 2] = .ok w' ∧
      ((w'.1.equips 100001 1).map fun e => ((e.affix 1).id, (e.affix 1).grow)) = some (3, 5) ∧
      (((w'.2 100001).equips 1).map fun e => ((e.affix 1).id, (e.affix 1).grow)) = some (3, 0) ∧
      ¬ ∀ pid, w'.1.equips pid = (w'.2 pid).equips := by
  refine ⟨_, rfl, by decide +kernel, by decide +kernel, fun h => ?_⟩
  have heq := congrArg (fun equips => (equips 1).map fun e : OwnedEquip => (e.affix 1).grow) (h 100001)
  exact absurd heq (by decide +kernel)

end CServer.Logic
