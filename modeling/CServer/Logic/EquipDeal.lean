import CServer.Logic.Payment

/-! # `world/logic/aL.c`: equips that are sold to the system and bought from it

The player pays what the request lists, one entry after another, and then the equip is traded. Nothing of the list is
looked at before, and the trade can still refuse the equip: while it has talents or is worn.

The sets of the equips are those of `Modules.EquipValue`. Whether the player of the system is there, and which equips
have talents, are inputs.
-/
namespace CServer.Logic
open CServer.Lib CServer.Modules Function

/-! ## The code -/

def systemPid : ℕ := 100000

structure DealTables where
  packages : ConsumePackages
  systemLoaded : Bool
  talented : ℕ → ℕ → Bool

structure DealState where
  sets : ℕ → EquipStore
  owned : Owned sets
  inventory : ℕ → Inventory

abbrev DealResult := (ℕ → EquipStore) × (ℕ → Inventory)

namespace DealState

def same (s : DealState) : DealResult := (s.sets, s.inventory)

def payAndTrade (t : DealTables) (s : DealState) (payer seller buyer : ℕ) (equip : OwnedEquip) (consume : List Cost) :
    Except Fault (ℤ × DealResult) :=
  match consumeAll t.packages payer retError 0 (s.inventory payer) consume with
  | (ret, inv) =>
    let inventory := update s.inventory payer inv
    if ret ≠ 0 then .ok (retError, s.sets, inventory)
    else do
      let r ← EquipStore.equipTrade (t.talented seller equip.uuid) s.sets seller buyer equip
      if r.1 ≠ 0 then return (retError, r.2, inventory) else return (retSuccess, r.2, inventory)

/-- `aL_equip_sell_to_system`; the kind of the equip is not looked at. -/
def equipSellToSystem (t : DealTables) (s : DealState) (seller : ℕ) (_gid : ℤ) (uuid : ℕ) (consume : List Cost) :
    Except Fault (ℤ × DealResult) :=
  if t.systemLoaded = false then .ok (retError, s.same)
  else
    match (s.sets seller).m uuid with
    | none => .ok (retError, s.same)
    | some equip => s.payAndTrade t seller seller systemPid equip consume

def equipBuyFromSystem (t : DealTables) (s : DealState) (buyer : ℕ) (gid : ℤ) (uuid : ℕ) (consume : List Cost) :
    Except Fault (ℤ × DealResult) :=
  if t.systemLoaded = false then .ok (retError, s.same)
  else
    match (s.sets systemPid).m uuid with
    | none => .ok (retError, s.same)
    | some equip =>
      if equip.gid ≠ gid then .ok (retError, s.same)
      else s.payAndTrade t buyer systemPid buyer equip consume

end DealState

structure EquipDeal where
  sell : Bool
  pid : ℕ
  gid : ℤ
  uuid : ℕ
  consume : List Cost

namespace EquipDeal

def seller (d : EquipDeal) : ℕ := if d.sell then d.pid else systemPid
def buyer (d : EquipDeal) : ℕ := if d.sell then systemPid else d.pid

def run (t : DealTables) (s : DealState) (d : EquipDeal) : Except Fault (ℤ × DealResult) :=
  if d.sell then s.equipSellToSystem t d.pid d.gid d.uuid d.consume
  else s.equipBuyFromSystem t d.pid d.gid d.uuid d.consume

end EquipDeal

/-! ## All or nothing -/

structure Moved (sets sets' : ℕ → EquipStore) (seller buyer uuid : ℕ) : Prop where
  bought : ∃ equip, (sets seller).m uuid = some equip ∧ (sets' buyer).m uuid = some { equip with pid := buyer }
  values : (sets' buyer).values uuid = ((sets seller).values uuid).map fun v => { v with pid := buyer }
  sold : seller ≠ buyer → (sets' seller).m uuid = none ∧ (sets' seller).values uuid = []
  others : ∀ p u, u ≠ uuid ∨ p ≠ seller ∧ p ≠ buyer → (sets' p).m u = (sets p).m u ∧ (sets' p).values u = (sets p).values u

/-- The deal fails and changes nothing, or succeeds: the list is deducted from the player, and the equip has moved. -/
structure EquipDeal.AllOrNothing (t : DealTables) (s : DealState) (d : EquipDeal) (ret : ℤ) (r : DealResult) : Prop where
  failed : ret ≠ retSuccess → r = s.same
  done : ret = retSuccess → DeductsAll t.packages 0 (s.inventory d.pid) d.consume (r.2 d.pid) ∧
    (∀ p, p ≠ d.pid → r.2 p = s.inventory p) ∧ Moved s.sets r.1 d.seller d.buyer d.uuid

/-- The equip that the request is about: it is there, and of the kind asked for when it is bought. -/
def EquipDeal.Finds (t : DealTables) (s : DealState) (d : EquipDeal) (equip : OwnedEquip) : Prop :=
  t.systemLoaded = true ∧ (s.sets d.seller).m d.uuid = some equip ∧ (d.sell = true ∨ equip.gid = d.gid)

def EquipDeal.Tradable (t : DealTables) (d : EquipDeal) (equip : OwnedEquip) : Prop :=
  t.talented d.seller equip.uuid = false ∧ ¬ (equip.heroUuid > 0 ∨ equip.placeholder ≠ 0)

def EquipDeal.GoesThrough (t : DealTables) (s : DealState) (d : EquipDeal) (equip : OwnedEquip) : Prop :=
  Payable t.packages d.pid 0 (s.inventory d.pid) d.consume ∧ d.Tradable t equip

/-- What goes through consumes everything in the list, and what does not takes nothing before it fails. -/
structure EquipDeal.Sound (t : DealTables) (s : DealState) (d : EquipDeal) (equip : OwnedEquip) : Prop where
  through : d.GoesThrough t s equip → ∀ c ∈ d.consume, c.Nothing t.packages 0 ∨ c.Consumed d.pid
  stopped : ¬ d.GoesThrough t s equip → Untaken t.packages d.pid (s.inventory d.pid) 0 d.consume

section Trade
variable {sets : ℕ → EquipStore} {seller buyer u : ℕ} {equip : OwnedEquip}

theorem equipTrade_moved (h : Owned sets) (buyer : ℕ) (hm : (sets seller).m u = some equip)
    (hworn : ¬ (equip.heroUuid > 0 ∨ equip.placeholder ≠ 0)) :
    ∃ sets', EquipStore.equipTrade false sets seller buyer equip = .ok (0, sets') ∧ Moved sets sets' seller buyer u := by
  obtain ⟨sold, hsold, hm', hv', htrade⟩ := EquipStore.equipTrade_sold h buyer hm hworn
  refine ⟨_, htrade, ⟨equip, hm, ?_⟩, ?_, fun hne => ⟨?_, ?_⟩, fun p w hother => ?_⟩
  · rw [update_self]
    exact update_self ..
  · rw [update_self]
    exact update_self ..
  · rw [update_of_ne hne]
    exact hm' seller
  · rw [update_of_ne hne]
    exact hv' seller
  · -- the two sets are changed under `u` only
    have hput : ∀ (base : ℕ → EquipStore) (q : ℕ) (e : Option OwnedEquip) (vs : List EquipValue),
        (w ≠ u ∨ p ≠ q) → (update base q ((base q).put u e vs) p).m w = (base p).m w ∧
          (update base q ((base q).put u e vs) p).values w = (base p).values w := by
      intro base q e vs hw
      by_cases hp : p = q
      · subst hp
        have hw' : w ≠ u := hw.resolve_right fun h => h rfl
        rw [update_self]
        exact ⟨update_of_ne hw' .., update_of_ne hw' ..⟩
      · rw [update_of_ne hp]
        exact ⟨rfl, rfl⟩
    have hbuyer := hput sold buyer (some { equip with pid := buyer })
      (((sets seller).values u).map fun v => { v with pid := buyer }) (hother.imp_right And.right)
    have hseller := hput sets seller none [] (hother.imp_right And.left)
    rw [← hsold] at hseller
    exact ⟨hbuyer.1.trans hseller.1, hbuyer.2.trans hseller.2⟩

theorem equipTrade_untradable {talented : Bool} (h : talented = true ∨ equip.heroUuid > 0 ∨ equip.placeholder ≠ 0) :
    EquipStore.equipTrade talented sets seller buyer equip = .ok (-1, sets) := by
  unfold EquipStore.equipTrade
  split
  · rfl
  case isFalse ht =>
    split
    · rfl
    · rw [if_pos (h.resolve_left ht)]

end Trade

section Deal
variable {t : DealTables} {s : DealState} {d : EquipDeal} {equip : OwnedEquip}

theorem update_eq_iff {inventory : ℕ → Inventory} {p : ℕ} {inv : Inventory} :
    update inventory p inv = inventory ↔ inv = inventory p := update_eq_self_iff

theorem payAndTrade_iff (hm : (s.sets d.seller).m d.uuid = some equip) :
    (∃ ret r, s.payAndTrade t d.pid d.seller d.buyer equip d.consume = .ok (ret, r) ∧ d.AllOrNothing t s ret r) ↔
      d.Sound t s equip := by
  have hfail : retError ≠ retSuccess := by decide
  have hsuccess := @consumeAll_success t.packages d.pid (s.inventory d.pid) 0 retError d.consume hfail
  have hkept := @consumeAll_kept_iff t.packages d.pid (s.inventory d.pid) 0 retError d.consume
  have hdeducts := @consumeAll_deducts_iff t.packages d.pid (s.inventory d.pid) 0 retError d.consume
  unfold DealState.payAndTrade
  generalize consumeAll t.packages d.pid retError 0 (s.inventory d.pid) d.consume = paid at hsuccess hkept hdeducts
  obtain ⟨ret, inv⟩ := paid
  simp only at hsuccess hkept hdeducts ⊢
  -- an operation that fails: the inventory is all that can have changed
  have hstopped : ¬ d.GoesThrough t s equip →
      (d.AllOrNothing t s retError (s.sets, update s.inventory d.pid inv) ↔ d.Sound t s equip) := by
    intro hnot
    constructor
    · intro h
      have hsame := congrArg Prod.snd (h.failed hfail)
      exact ⟨fun hgo => absurd hgo hnot, fun _ => hkept.mp (update_eq_iff.mp hsame)⟩
    · intro h
      refine ⟨fun _ => ?_, fun he => absurd he hfail⟩
      rw [update_eq_iff.mpr (hkept.mpr (h.stopped hnot))]
      rfl
  by_cases hret : ret = 0
  · have hpay : Payable t.packages d.pid 0 (s.inventory d.pid) d.consume := hsuccess.mp hret
    rw [if_neg (not_not.mpr hret)]
    by_cases htrade : d.Tradable t equip
    · obtain ⟨sets', hok, hmoved⟩ := equipTrade_moved s.owned d.buyer hm htrade.2
      rw [htrade.1, hok, ok_bind]
      simp only [ne_eq, not_true_eq_false, if_false]
      have hgo : d.GoesThrough t s equip := ⟨hpay, htrade⟩
      constructor
      · intro h
        obtain ⟨ret', r, heq, hall⟩ := h
        obtain ⟨rfl, rfl⟩ := ok_pair_inj heq
        have hded := (hall.done rfl).1
        simp only [update_self] at hded
        exact ⟨fun _ => (hdeducts hpay).mp hded, fun hnot => absurd hgo hnot⟩
      · intro h
        refine ⟨_, _, rfl, fun hne => absurd rfl hne, fun _ => ⟨?_, fun p hp => ?_, hmoved⟩⟩
        · simp only [update_self]
          exact (hdeducts hpay).mpr (h.through hgo)
        · exact update_of_ne hp _ _
    · have hnot : ¬ d.GoesThrough t s equip := fun h => htrade h.2
      have hrefused : t.talented d.seller equip.uuid = true ∨ equip.heroUuid > 0 ∨ equip.placeholder ≠ 0 := by
        by_contra hno
        obtain ⟨h1, h2⟩ := not_or.mp hno
        exact htrade ⟨eq_false_of_ne_true h1, h2⟩
      rw [equipTrade_untradable hrefused, ok_bind, if_pos (show (-1 : ℤ) ≠ 0 by decide)]
      rw [← hstopped hnot]
      exact ⟨fun ⟨_, _, heq, hall⟩ => by cases heq; exact hall, fun h => ⟨_, _, rfl, h⟩⟩
  · have hnot : ¬ d.GoesThrough t s equip := fun h => hret (hsuccess.mpr h.1)
    rw [if_pos hret, ← hstopped hnot]
    exact ⟨fun ⟨_, _, heq, hall⟩ => by cases heq; exact hall, fun h => ⟨_, _, rfl, h⟩⟩

end Deal

/-- A deal with the system is all or nothing exactly if the request finds no equip, or what goes through consumes all of
the list and what does not go through takes nothing of it. -/
theorem equipDeal_iff (t : DealTables) (s : DealState) (d : EquipDeal) :
    (∃ ret r, d.run t s = .ok (ret, r) ∧ d.AllOrNothing t s ret r) ↔ ∀ equip, d.Finds t s equip → d.Sound t s equip := by
  have hfail : retError ≠ retSuccess := by decide
  have hrefused : (∃ ret r, (.ok (retError, s.same) : Except Fault (ℤ × DealResult)) = .ok (ret, r) ∧
      d.AllOrNothing t s ret r) := ⟨_, _, rfl, fun _ => rfl, fun h => absurd h hfail⟩
  have hfound : ∀ equip, d.Finds t s equip → ((∀ equip, d.Finds t s equip → d.Sound t s equip) ↔ d.Sound t s equip) := by
    intro equip hfind
    refine ⟨fun h => h equip hfind, fun h equip' hfind' => ?_⟩
    obtain rfl := some_unique hfind.2.1 hfind'.2.1
    exact h
  have hnone : ¬ (∃ equip, d.Finds t s equip) →
      ((∃ ret r, (.ok (retError, s.same) : Except Fault (ℤ × DealResult)) = .ok (ret, r) ∧ d.AllOrNothing t s ret r) ↔
        ∀ equip, d.Finds t s equip → d.Sound t s equip) :=
    fun hno => ⟨fun _ equip hfind => absurd ⟨equip, hfind⟩ hno, fun _ => hrefused⟩
  unfold EquipDeal.run
  cases hsell : d.sell with
  | true =>
    have hseller : d.seller = d.pid := if_pos hsell
    have hbuyer : d.buyer = systemPid := if_pos hsell
    rw [if_pos rfl, DealState.equipSellToSystem]
    by_cases hsystem : t.systemLoaded = false
    · rw [if_pos hsystem]
      exact hnone fun ⟨_, hfind⟩ => nomatch hsystem.symm.trans hfind.1
    rw [if_neg hsystem]
    cases hm : (s.sets d.pid).m d.uuid with
    | none =>
      refine hnone fun ⟨equip, hfind⟩ => ?_
      have hget := hfind.2.1
      rw [hseller, hm] at hget
      cases hget
    | some equip =>
      have hget : (s.sets d.seller).m d.uuid = some equip := by rwa [hseller]
      rw [hfound equip ⟨eq_true_of_ne_false hsystem, hget, .inl hsell⟩, ← payAndTrade_iff hget, hseller, hbuyer]
  | false =>
    have hseller : d.seller = systemPid := by rw [EquipDeal.seller, hsell, if_neg Bool.false_ne_true]
    have hbuyer : d.buyer = d.pid := by rw [EquipDeal.buyer, hsell, if_neg Bool.false_ne_true]
    rw [if_neg Bool.false_ne_true, DealState.equipBuyFromSystem]
    by_cases hsystem : t.systemLoaded = false
    · rw [if_pos hsystem]
      exact hnone fun ⟨_, hfind⟩ => nomatch hsystem.symm.trans hfind.1
    rw [if_neg hsystem]
    cases hm : (s.sets systemPid).m d.uuid with
    | none =>
      refine hnone fun ⟨equip, hfind⟩ => ?_
      have hget := hfind.2.1
      rw [hseller, hm] at hget
      cases hget
    | some equip =>
      have hget : (s.sets d.seller).m d.uuid = some equip := by rwa [hseller]
      simp only
      by_cases hgid : equip.gid ≠ d.gid
      · rw [if_pos hgid]
        refine hnone fun ⟨equip', hfind⟩ => ?_
        obtain rfl := some_unique hget hfind.2.1
        exact hgid (hfind.2.2.resolve_left (by rw [hsell]; exact Bool.false_ne_true))
      · rw [if_neg hgid, hfound equip ⟨eq_true_of_ne_false hsystem, hget, .inr (not_not.mp hgid)⟩,
          ← payAndTrade_iff hget, hseller, hbuyer]

def oneEquip (worn : Bool) : OwnedEquip :=
  ⟨⟨1, 100001, if worn then 9 else 0, if worn then 1 else 0⟩, 7, 10, 1, 0, fun _ => ⟨0, 0, 0⟩⟩

def oneEquipState (worn : Bool) : DealState where
  sets := fun p => ⟨fun u => if p = 100001 ∧ u = 7 then some (oneEquip worn) else none, fun _ => []⟩
  owned := by
    intro u
    refine ⟨fun p e he => ?_, fun p q hp hq => ?_, fun p hp => absurd rfl hp, fun p v hv => nomatch hv⟩
    · simp only at he
      split at he
      · next h =>
        cases he
        exact ⟨h.2.symm, h.1.symm⟩
      · cases he
    · simp only [ne_eq, ite_eq_right_iff, not_forall] at hp hq
      exact hp.1.1.trans hq.1.1.symm
  inventory := fun _ => tenPieces

def openMarket : DealTables := ⟨fun _ => none, true, fun _ _ => false⟩

/-- A worn equip is refused after four pieces have been taken. -/
theorem equipSellToSystem_takes_four :
    ∃ r, EquipDeal.run openMarket (oneEquipState true) ⟨true, 100001, 10, 7, [⟨41, 5, 4, by decide⟩]⟩ = .ok (retError, r) ∧
      (r.2 100001).item 5 = some 6 ∧
      ¬ EquipDeal.AllOrNothing openMarket (oneEquipState true) ⟨true, 100001, 10, 7, [⟨41, 5, 4, by decide⟩]⟩ retError r := by
  refine ⟨_, rfl, by decide +kernel, fun h => ?_⟩
  have hitem := congrArg (fun r : DealResult => (r.2 100001).item 5) (h.failed (by decide))
  exact absurd hitem (by decide +kernel)

end CServer.Logic
