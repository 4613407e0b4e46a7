import CServer.Consume.Trade
import CServer.Lib.LuaArray
import Mathlib.Data.Prod.Lex

/-! # `consume/Trade.lua`: the order book

For each commodity `rank` has the orders on sale, cheapest first, and each order keeps the position it was put at. The
removals take an order out of `rank` by searching for it and leave the positions of all orders as they are; `SetOrder`
puts an order that is listed again at the position it kept, and moves it on from there. Prices are rational numbers.
-/
namespace CServer.Consume
open CServer.Lib Function List

/-! ## The code -/

structure TradeCost where
  type : ℕ
  id : ℕ
  value : ℚ
  deriving DecidableEq

structure TradeItem where
  gid : ℕ
  seller : ℕ
  commodity : Commodity
  cost : TradeCost
  putawayTime : ℤ
  pos : Option ℕ
  dbExist : Bool
  concernCount : ℕ
  deriving DecidableEq

abbrev BookKey := ℕ × ℕ

/-- Orders are referred to by their numbers, `objects` being the memory of all of them. -/
structure TradeOrders where
  objects : ℕ → TradeItem
  ranks : BookKey → LuaArray ℕ
  orders : BookKey → ℕ → Bool
  addressing : ℕ → Option BookKey
  lastGid : ℕ

def TradeItem.average (item : TradeItem) : ℚ := item.cost.value / item.commodity.value

def precision : ℚ := 1 / 10 ^ 6

def floatEqual (a b : ℚ) : Bool := decide (|a - b| < precision)

def floatLess (a b : ℚ) : Bool := !floatEqual a b && decide (a - b < 0)

def onSell (now putawayTime : ℤ) : Bool := decide (now - putawayTime ≤ 24 * 3600)

def orderOutdate (now putawayTime : ℤ) : Bool := decide (now - putawayTime > 24 * 3600)

namespace TradeOrders
variable (s : TradeOrders)

def put (b : BookKey) (i gid : ℕ) : TradeOrders :=
  { s with
    ranks := update s.ranks b ((s.ranks b).put i (some gid))
    objects := update s.objects gid { s.objects gid with pos := some i } }

def less (average : ℚ) (putawayTime : ℤ) (gid front : ℕ) : Bool :=
  let item := s.objects front
  floatLess item.average average ||
    (floatEqual item.average average && decide (item.putawayTime < putawayTime)) ||
    (floatEqual item.average average && decide (item.putawayTime = putawayTime) && decide (item.gid < gid))

def moveFront (b : BookKey) (average : ℚ) (putawayTime : ℤ) (gid : ℕ) : ℕ → TradeOrders → TradeOrders
  | 0, s => s
  | ite + 1, s =>
    match (s.ranks b).get ite with
    | none => s.put b (ite + 1) gid
    | some front =>
      if s.less average putawayTime gid front then s.put b (ite + 1) gid
      else moveFront b average putawayTime gid ite (s.put b (ite + 1) front)

def moveBack (b : BookKey) (average : ℚ) (putawayTime : ℤ) (gid : ℕ) : ℕ → ℕ → TradeOrders → TradeOrders
  | 0, _, s => s
  | fuel + 1, ite, s =>
    match (s.ranks b).get (ite + 1) with
    | none => s.put b ite gid
    | some front =>
      if s.less average putawayTime gid front then s.put b ite gid
      else moveBack b average putawayTime gid fuel (ite + 1) (s.put b ite front)

/-- `TradeOrders[type]` is there for items and for both kinds of equipment. -/
def sellable (type : ℕ) : Bool :=
  decide (type = commodityTypeItem ∨ type = commodityTypeEquip ∨ type = commodityTypeEquip2)

def reprice (gid : ℕ) (value : ℚ) (putawayTime : ℤ) : TradeOrders :=
  { s with
    objects := update s.objects gid
      { s.objects gid with cost := { (s.objects gid).cost with value }, putawayTime } }

/-- `SetOrder` once the order is there: it is moved on from its position. -/
def move (b : BookKey) (gid : ℕ) (average value : ℚ) (putawayTime : ℤ) : TradeOrders :=
  let item := s.objects gid
  match item.pos with
  | none => s
  | some oldpos =>
    if item.cost.value ≠ 0 ∧ average > item.average then
      moveBack b average putawayTime gid ((s.ranks b).maxn + 1 - oldpos) oldpos (s.reprice gid value putawayTime)
    else moveFront b average putawayTime gid oldpos (s.reprice gid value putawayTime)

/-- The end of `SetOrder`; `lastId` is what the database answers if a row is inserted. -/
def record (b : BookKey) (gid : ℕ) (updateDatabase : Bool) (lastId : ℕ) : TradeOrders :=
  let s := { s with addressing := update s.addressing gid (some b) }
  if updateDatabase ∧ ¬ (s.objects gid).dbExist then
    { s with objects := update s.objects gid { s.objects gid with dbExist := true }, lastGid := lastId }
  else s

def moveOrder (b : BookKey) (gid : ℕ) (average value : ℚ) (putawayTime : ℤ) (updateDatabase : Bool) (lastId : ℕ) :
    TradeOrders × Option (Option ℕ × ℕ) :=
  let s := (s.move b gid average value putawayTime).record b gid updateDatabase lastId
  (s, some ((s.objects gid).pos, gid))

def setOrder (now : ℤ) (pid : ℕ) (gid : Option ℕ) (commodity : Commodity) (cost : TradeCost) (putawayTime : ℤ)
    (updateDatabase : Bool) (concernCount lastId : ℕ) : TradeOrders × Option (Option ℕ × ℕ) :=
  let gid := gid.getD (s.lastGid + 1)
  let average := cost.value / commodity.value
  let b : BookKey := (commodity.type, commodity.id)
  if cost.value ≤ 0 ∨ commodity.value ≤ 0 then (s, none)
  else if ¬ sellable commodity.type then (s, none)
  else if ¬ s.orders b gid then
    let item : TradeItem :=
      ⟨gid, pid, commodity, cost, putawayTime, some ((s.ranks b).len + 1), !updateDatabase, concernCount⟩
    let s := { s with
      objects := update s.objects gid item
      orders := update s.orders b (update (s.orders b) gid true) }
    let s :=
      if orderOutdate now putawayTime then s
      else { s with ranks := update s.ranks b ((s.ranks b).insertLast gid) }
    s.moveOrder b gid average cost.value putawayTime updateDatabase lastId
  else
    let item := s.objects gid
    if item.seller ≠ pid then (s, none)
    else if item.commodity.type ≠ commodity.type ∨ item.commodity.id ≠ commodity.id then (s, none)
    else if onSell now item.putawayTime then (s, none)
    else
      let s :=
        match item.pos with
        | some _ => s
        | none => { s with
          objects := update s.objects gid { item with
            pos := some ((s.ranks b).len + 1), cost := { item.cost with value := cost.value }, putawayTime }
          ranks := update s.ranks b ((s.ranks b).insertLast gid) }
      s.moveOrder b gid average cost.value putawayTime updateDatabase lastId

/-- The loop of `RemoveRank`, which goes on with the next position. Orders of sellers below 100000 are those of the
system. -/
def removeRankLoop (b : BookKey) (gid : ℕ) : ℕ → ℕ → TradeOrders → Except Fault TradeOrders
  | 0, _, s => .ok s
  | fuel + 1, pos, s =>
    match (s.ranks b).get pos with
    | none => .ok s
    | some v =>
      if (s.objects v).gid = gid then
        let s := { s with ranks := update s.ranks b ((s.ranks b).removeAt pos) }
        if (s.objects v).seller < 100000 then
          removeRankLoop b gid fuel (pos + 1) { s with orders := update s.orders b (update (s.orders b) gid false) }
        else if s.orders b gid then
          removeRankLoop b gid fuel (pos + 1)
            { s with objects := update s.objects gid { s.objects gid with concernCount := 0 } }
        else .error .outOfBounds
      else removeRankLoop b gid fuel (pos + 1) s

def removeRank (gid : ℕ) : Except Fault TradeOrders :=
  match s.addressing gid with
  | none => .ok s
  | some b => removeRankLoop b gid (s.ranks b).maxn 1 s

def removeOrder (gid : ℕ) : TradeOrders × Bool :=
  match s.addressing gid with
  | none => (s, false)
  | some b =>
    if ¬ s.orders b gid then (s, false)
    else
      let s :=
        match (s.objects gid).pos with
        | none => s
        | some _ =>
          match (s.ranks b).ipairs.findIdx? fun v => decide ((s.objects v).gid = gid) with
          | none => s
          | some k => { s with ranks := update s.ranks b ((s.ranks b).removeAt (k + 1)) }
      ({ s with
        orders := update s.orders b (update (s.orders b) gid false)
        addressing := update s.addressing gid none }, true)

end TradeOrders

/-! ## Runs -/

inductive TradeCall
  | sell (now : ℤ) (pid : ℕ) (commodity : Commodity) (cost : TradeCost) (lastId : ℕ)
  | load (now : ℤ) (seller gid : ℕ) (commodity : Commodity) (cost : TradeCost) (putawayTime : ℤ) (concernCount : ℕ)
  | resell (now : ℤ) (pid gid : ℕ) (commodity : Commodity) (cost : TradeCost)
  | removeRank (gid : ℕ)
  | removeOrder (gid : ℕ)

/-- `listed` is not in the source: the orders that were set and have not been removed since. -/
structure TradeRun where
  trade : TradeOrders
  listed : ℕ → Bool

variable (s : TradeRun)

def TradeRun.set : TradeOrders × Option (Option ℕ × ℕ) → TradeRun
  | (trade, none) => { s with trade }
  | (trade, some (_, gid)) => ⟨trade, update s.listed gid true⟩

def tradeStep : TradeCall → Except Fault TradeRun
  | .sell now pid commodity cost lastId =>
    .ok (s.set (s.trade.setOrder now pid none commodity cost now true 0 lastId))
  | .load now seller gid commodity cost putawayTime concernCount =>
    .ok (s.set (s.trade.setOrder now seller (some gid) commodity cost putawayTime false concernCount 0))
  | .resell now pid gid commodity cost =>
    .ok (s.set (s.trade.setOrder now pid (some gid) commodity cost now true 0 0))
  | .removeRank gid => do
    let trade ← s.trade.removeRank gid
    .ok ⟨trade, update s.listed gid false⟩
  | .removeOrder gid => .ok ⟨(s.trade.removeOrder gid).1, update s.listed gid false⟩

def TradeRun.init (lastGid : ℕ) (junk : TradeItem) : TradeRun :=
  ⟨⟨fun _ => junk, fun _ => ∅, fun _ _ => false, fun _ => none, lastGid⟩, fun _ => false⟩

/-! ## Order -/

def orderKey (average : ℚ) (putawayTime : ℤ) (gid : ℕ) : ℚ ×ₗ ℤ ×ₗ ℕ := toLex (average, toLex (putawayTime, gid))

def TradeOrders.key (s : TradeOrders) (gid : ℕ) : ℚ ×ₗ ℤ ×ₗ ℕ :=
  orderKey (s.objects gid).average (s.objects gid).putawayTime gid

def TradeItem.book (item : TradeItem) : BookKey := (item.commodity.type, item.commodity.id)

/-- The rank of the commodity `b` has no gaps, has each of its orders that is listed once and no other one, and is in
order. -/
def TradeRun.OrderedAt (b : BookKey) : Prop :=
  ∃ xs, (s.trade.ranks b).Lists xs ∧
    (∀ g, g ∈ xs ↔ s.listed g = true ∧ (s.trade.objects g).book = b) ∧
    xs.Pairwise fun x y => s.trade.key x < s.trade.key y

def TradeRun.Ordered : Prop := ∀ b, s.OrderedAt b

def TradeOrders.Judged (s : TradeOrders) (xs : List ℕ) (average : ℚ) (putawayTime : ℤ) (gid : ℕ) : Prop :=
  (xs.filter (s.less average putawayTime gid)).getLast? =
    (xs.filter fun v => decide (s.key v < orderKey average putawayTime gid)).getLast?

/-- An order that is listed again is in the rank or comes after its end. If its price does not rise, the position it kept is its
own, and the one behind it is greater. If it does, its position is at the end or beyond it, and the one behind it is greater: the
last one if it is at the end. -/
def TradeOrders.Resellable (s : TradeOrders) (gid : ℕ) (average : ℚ) (putawayTime : ℤ) : Prop :=
  let item := s.objects gid
  let xs := (s.ranks item.book).ipairs
  if average ≤ item.average then
    (gid ∉ xs ∧ item.pos = some (xs.length + 1) ∧ s.Judged xs average putawayTime gid) ∨
      (gid ∈ xs ∧ item.pos = some (xs.idxOf gid + 1) ∧ s.Judged (xs.take (xs.idxOf gid)) average putawayTime gid ∧
        ∀ v ∈ xs[xs.idxOf gid + 1]?, orderKey average putawayTime gid < s.key v)
  else
    gid ∈ xs ∧ (∃ q ∈ item.pos, xs.length < q ∨ q = xs.length ∧ xs.idxOf gid + 1 = q) ∧
      ∀ v ∈ xs[xs.idxOf gid + 1]?, orderKey average putawayTime gid < s.key v

def TradeCall.Right : TradeCall → Prop
  | .sell now _ commodity cost _ =>
    0 < cost.value → 0 < commodity.value → TradeOrders.sellable commodity.type = true →
      s.trade.Judged (s.trade.ranks (commodity.type, commodity.id)).ipairs (cost.value / commodity.value) now
        (s.trade.lastGid + 1)
  | .load _ _ gid commodity cost putawayTime _ =>
    0 < cost.value → 0 < commodity.value → TradeOrders.sellable commodity.type = true →
      s.trade.Judged (s.trade.ranks (commodity.type, commodity.id)).ipairs (cost.value / commodity.value) putawayTime gid
  | .resell now pid gid commodity cost =>
    0 < cost.value → 0 < commodity.value → (s.trade.objects gid).seller = pid →
      onSell now (s.trade.objects gid).putawayTime = false →
      s.trade.Resellable gid (cost.value / commodity.value) now
  | .removeRank _ => True
  | .removeOrder _ => True

/-- What the callers and the database see to: numbers given out are new, the rows that are loaded are distinct and older,
and an order is listed again under its own commodity and with its own quantity. -/
def TradeCall.Called : TradeCall → Prop
  | .sell _ _ _ _ lastId => s.trade.lastGid + 1 ≤ lastId
  | .load _ _ gid _ _ _ _ => gid ≤ s.trade.lastGid ∧ s.trade.addressing gid = none
  | .resell _ _ gid commodity _ =>
    s.trade.orders (commodity.type, commodity.id) gid = true ∧
      commodity.value = (s.trade.objects gid).commodity.value
  | .removeRank _ => True
  | .removeOrder _ => True

/-! ## Moving along a rank -/

/-- Everything is as it was but for the rank of `b` and the positions. -/
structure Moved (b : BookKey) (s s' : TradeOrders) : Prop where
  ranks : ∀ b', b' ≠ b → s'.ranks b' = s.ranks b'
  orders : s'.orders = s.orders
  addressing : s'.addressing = s.addressing
  lastGid : s'.lastGid = s.lastGid
  objects : ∀ g, { s'.objects g with pos := none } = { s.objects g with pos := none }
  pos : ∀ g, (s.objects g).pos.isSome → (s'.objects g).pos.isSome

section Moves
variable {b : BookKey} {s s' s'' : TradeOrders} {average : ℚ} {putawayTime : ℤ} {gid : ℕ}

theorem Moved.refl (b : BookKey) (s : TradeOrders) : Moved b s s := ⟨fun _ _ => rfl, rfl, rfl, rfl, fun _ => rfl, fun _ h => h⟩

theorem Moved.trans (h : Moved b s s') (h' : Moved b s' s'') : Moved b s s'' :=
  ⟨fun b' hb => (h'.ranks b' hb).trans (h.ranks b' hb), h'.orders.trans h.orders, h'.addressing.trans h.addressing,
    h'.lastGid.trans h.lastGid, fun g => (h'.objects g).trans (h.objects g), fun g hg => h'.pos g (h.pos g hg)⟩

theorem Moved.item (h : Moved b s s') (g : ℕ) :
    (s'.objects g).gid = (s.objects g).gid ∧ (s'.objects g).commodity = (s.objects g).commodity ∧
      (s'.objects g).cost = (s.objects g).cost ∧ (s'.objects g).putawayTime = (s.objects g).putawayTime ∧
      (s'.objects g).dbExist = (s.objects g).dbExist := by
  have hg := h.objects g
  rw [TradeItem.mk.injEq] at hg
  exact ⟨hg.1, hg.2.2.1, hg.2.2.2.1, hg.2.2.2.2.1, hg.2.2.2.2.2.2.1⟩

theorem Moved.key (h : Moved b s s') (g : ℕ) : s'.key g = s.key g := by
  obtain ⟨-, hcommodity, hcost, htime, -⟩ := h.item g
  rw [TradeOrders.key, TradeOrders.key, TradeItem.average, TradeItem.average, hcommodity, hcost, htime]

theorem Moved.less (h : Moved b s s') : s'.less average putawayTime gid = s.less average putawayTime gid := by
  funext front
  obtain ⟨hgid, hcommodity, hcost, htime, -⟩ := h.item front
  simp only [TradeOrders.less, TradeItem.average, hgid, hcommodity, hcost, htime]

theorem put_moved (s : TradeOrders) (b : BookKey) (i g : ℕ) : Moved b s (s.put b i g) := by
  have hobj : ∀ g', (s.put b i g).objects g' = if g' = g then { s.objects g with pos := some i } else s.objects g' := by
    intro g'
    show update s.objects g _ g' = _
    split_ifs with hg
    · rw [hg, update_self]
    · rw [update_of_ne hg]
  refine ⟨fun b' hb => update_of_ne hb .., rfl, rfl, rfl, fun g' => ?_, fun g' hpos => ?_⟩
  · rw [hobj]
    split_ifs with hg
    · rw [hg]
    · rfl
  · rw [hobj]
    split_ifs with hg
    · rfl
    · exact hpos

theorem put_rank (s : TradeOrders) (b : BookKey) (i g : ℕ) : (s.put b i g).ranks b = (s.ranks b).put i (some g) := update_self ..

theorem moveFront_slides (b : BookKey) (average : ℚ) (putawayTime : ℤ) (gid ite : ℕ) : ∀ s : TradeOrders,
    (TradeOrders.moveFront b average putawayTime gid ite s).ranks b =
        (s.ranks b).slideDown (s.less average putawayTime gid) gid ite ∧
      Moved b s (TradeOrders.moveFront b average putawayTime gid ite s) := by
  induction ite with
  | zero => exact fun s => ⟨rfl, Moved.refl b s⟩
  | succ ite ih =>
    intro s
    rw [TradeOrders.moveFront, LuaArray.slideDown]
    cases (s.ranks b).get ite with
    | none => exact ⟨put_rank .., put_moved ..⟩
    | some front =>
      by_cases hless : s.less average putawayTime gid front = true
      · simp only [hless, if_true]
        exact ⟨put_rank .., put_moved ..⟩
      · have hput := put_moved s b (ite + 1) front
        obtain ⟨hrank, hmoved⟩ := ih (s.put b (ite + 1) front)
        rw [put_rank, hput.less] at hrank
        simp only [hless]
        exact ⟨hrank, hput.trans hmoved⟩

end Moves

/-! ## Setting an order -/

section Setting
variable {b : BookKey} {s s' : TradeOrders} {average value : ℚ} {putawayTime : ℤ} {gid : ℕ} {updateDatabase : Bool}
  {lastId : ℕ}

theorem reprice_self : (s.reprice gid value putawayTime).objects gid =
    { s.objects gid with cost := { (s.objects gid).cost with value }, putawayTime } := update_self ..

theorem reprice_of_ne {g : ℕ} (hg : g ≠ gid) : (s.reprice gid value putawayTime).objects g = s.objects g := update_of_ne hg ..

theorem reprice_key (haverage : value / (s.objects gid).commodity.value = average) :
    (s.reprice gid value putawayTime).key gid = orderKey average putawayTime gid := by
  rw [TradeOrders.key, TradeItem.average, reprice_self]
  show orderKey (value / (s.objects gid).commodity.value) putawayTime gid = _
  rw [haverage]

section Record
variable (s b gid updateDatabase lastId)

theorem record_ranks : (s.record b gid updateDatabase lastId).ranks = s.ranks := by
  unfold TradeOrders.record
  dsimp only
  split_ifs <;> rfl

theorem record_orders : (s.record b gid updateDatabase lastId).orders = s.orders := by
  unfold TradeOrders.record
  dsimp only
  split_ifs <;> rfl

theorem record_addressing : (s.record b gid updateDatabase lastId).addressing = update s.addressing gid (some b) := by
  unfold TradeOrders.record
  dsimp only
  split_ifs <;> rfl

theorem record_objects (g : ℕ) : (s.record b gid updateDatabase lastId).objects g =
    if g = gid then { s.objects gid with dbExist := updateDatabase || (s.objects gid).dbExist } else s.objects g := by
  unfold TradeOrders.record
  dsimp only
  by_cases hg : g = gid
  · rw [hg, if_pos rfl]
    cases updateDatabase with
    | false => rfl
    | true =>
      cases hrow : (s.objects gid).dbExist with
      | false => simp [update_self]
      | true =>
        have hsame : s.objects gid = { s.objects gid with dbExist := true } := by rw [← hrow]
        simpa using hsame
  · rw [if_neg hg]
    split_ifs
    · exact update_of_ne hg ..
    · rfl

theorem record_lastGid : (s.record b gid updateDatabase lastId).lastGid =
    if updateDatabase = true ∧ (s.objects gid).dbExist = false then lastId else s.lastGid := by
  unfold TradeOrders.record
  dsimp only
  cases updateDatabase <;> cases hrow : (s.objects gid).dbExist <;> simp

theorem record_key (g : ℕ) : (s.record b gid updateDatabase lastId).key g = s.key g := by
  rw [TradeOrders.key, TradeOrders.key, record_objects]
  split_ifs with hg
  · rw [hg]
    rfl
  · rfl

end Record

theorem less_reprice {z : ℕ} (hz : z ≠ gid) :
    (s.reprice gid value putawayTime).less average putawayTime gid z = s.less average putawayTime gid z := by
  simp only [TradeOrders.less, reprice_of_ne hz]

theorem key_reprice {z : ℕ} (hz : z ≠ gid) : (s.reprice gid value putawayTime).key z = s.key z := by
  rw [TradeOrders.key, TradeOrders.key, reprice_of_ne hz]

theorem key_ne {z : ℕ} (hz : z ≠ gid) : s.key z ≠ orderKey average putawayTime gid := by
  intro h
  exact hz (Prod.mk.inj (toLex.injective (Prod.mk.inj (toLex.injective h)).2)).2

/-- The order `gid` has got its price and time, and a place in the rank of `b` among the others there, which are `xs`. -/
structure Placed (b : BookKey) (gid : ℕ) (value : ℚ) (putawayTime : ℤ) (xs : List ℕ) (s s' : TradeOrders) : Prop where
  moved : Moved b (s.reprice gid value putawayTime) s'
  rank : ∃ zs, zs.Perm (gid :: xs) ∧ (s'.ranks b).Lists zs ∧ zs.Pairwise fun x y => s'.key x < s'.key y

theorem move_front {pre post : List ℕ} (hpos : (s.objects gid).pos = some (pre.length + 1))
    (hle : average ≤ (s.objects gid).average) (haverage : value / (s.objects gid).commodity.value = average)
    (hslide : ∀ stop, ∃ front back, pre = front ++ back ∧ (∀ z ∈ back, stop z = false) ∧
      (∀ z ∈ front.getLast?, stop z = true) ∧
      ((s.ranks b).slideDown stop gid (pre.length + 1)).Lists (front ++ gid :: (back ++ post)))
    (hout : gid ∉ pre ++ post) (hsorted : (pre ++ post).Pairwise fun x y => s.key x < s.key y)
    (hjudged : s.Judged pre average putawayTime gid) (hpost : ∀ v ∈ post.head?, orderKey average putawayTime gid < s.key v) :
    Placed b gid value putawayTime (pre ++ post) s (s.move b gid average value putawayTime) := by
  have hmove : s.move b gid average value putawayTime =
      TradeOrders.moveFront b average putawayTime gid (pre.length + 1) (s.reprice gid value putawayTime) := by
    unfold TradeOrders.move
    simp only [hpos]
    exact if_neg fun h => not_lt.mpr hle h.2
  obtain ⟨hrank, hmoved⟩ := moveFront_slides b average putawayTime gid (pre.length + 1) (s.reprice gid value putawayTime)
  rw [← hmove] at hrank hmoved
  obtain ⟨front, back, rfl, hback, hfront, hlists⟩ := hslide ((s.reprice gid value putawayTime).less average putawayTime gid)
  have hne : ∀ z ∈ front ++ back, z ≠ gid := fun z hz e => hout (e ▸ mem_append_left post hz)
  -- the test is that of the orders before the price was changed
  have hstop : ∀ z ∈ front ++ back,
      (s.reprice gid value putawayTime).less average putawayTime gid z = s.less average putawayTime gid z :=
    fun z hz => less_reprice (hne z hz)
  rw [TradeOrders.Judged, ← filter_congr hstop] at hjudged
  obtain ⟨hs1, hs2, hs3⟩ := pairwise_append.mp hsorted
  obtain ⟨hlow, hhigh⟩ := LuaArray.stopped_split hs1 (fun z hz => key_ne (hne z hz)) hback hfront hjudged
  have hpost' : ∀ z ∈ post, orderKey average putawayTime gid < s.key z := by
    intro z hz
    cases post with
    | nil => exact nomatch hz
    | cons v post =>
      have hv := hpost v rfl
      rcases mem_cons.mp hz with rfl | hz
      · exact hv
      · exact hv.trans ((pairwise_cons.mp hs2).1 z hz)
  have hkey : (s.move b gid average value putawayTime).key gid = orderKey average putawayTime gid :=
    (hmoved.key gid).trans (reprice_key haverage)
  have hkeys : ∀ z ∈ front ++ back ++ post, (s.move b gid average value putawayTime).key z = s.key z :=
    fun z hz => (hmoved.key z).trans (key_reprice fun e => hout (e ▸ hz))
  refine ⟨hmoved, front ++ gid :: (back ++ post), ?_, ?_, ?_⟩
  · rw [append_assoc]
    exact perm_middle
  · rw [hrank]
    exact hlists
  · rw [append_assoc] at hsorted hkeys
    refine pairwise_between (hsorted.imp_of_mem fun {x y} hx hy hxy => ?_) (fun x hx => ?_) fun y hy => ?_
    · rw [hkeys x hx, hkeys y hy]
      exact hxy
    · rw [hkeys x (mem_append_left _ hx), hkey]
      exact hlow x hx
    · rw [hkeys y (mem_append_right _ hy), hkey]
      rcases mem_append.mp hy with hy | hy
      · exact hhigh y hy
      · exact hpost' y hy

theorem move_back {pre post : List ℕ} {q : ℕ} (hpos : (s.objects gid).pos = some q)
    (hcost : (s.objects gid).cost.value ≠ 0) (hlt : (s.objects gid).average < average)
    (haverage : value / (s.objects gid).commodity.value = average) (hlists : (s.ranks b).Lists (pre ++ gid :: post))
    (hq : (pre ++ gid :: post).length < q ∨ q = (pre ++ gid :: post).length ∧ pre.length + 1 = q)
    (hsorted : (pre ++ gid :: post).Pairwise fun x y => s.key x < s.key y)
    (hpost : ∀ v ∈ post.head?, orderKey average putawayTime gid < s.key v) :
    Placed b gid value putawayTime (pre ++ post) s (s.move b gid average value putawayTime) := by
  have hmove : s.move b gid average value putawayTime =
      TradeOrders.moveBack b average putawayTime gid ((pre ++ gid :: post).length + 1 - q) q
        (s.reprice gid value putawayTime) := by
    unfold TradeOrders.move
    simp only [hpos, hlists.maxn]
    exact if_pos ⟨hcost, hlt⟩
  have hstays : ((s.move b gid average value putawayTime).ranks b).Lists (pre ++ gid :: post) ∧
      Moved b (s.reprice gid value putawayTime) (s.move b gid average value putawayTime) := by
    rw [hmove]
    rcases hq with hq | ⟨hq, hend⟩
    · have hfuel : (pre ++ gid :: post).length + 1 - q = 0 := by omega
      rw [hfuel]
      exact ⟨hlists, Moved.refl ..⟩
    · have hfuel : (pre ++ gid :: post).length + 1 - q = 1 := by omega
      have hnil : post = [] := by
        rw [← hend, length_append, length_cons] at hq
        exact eq_nil_of_length_eq_zero (by omega)
      have hnone : ((s.reprice gid value putawayTime).ranks b).get (q + 1) = none := by
        rw [← hend]
        refine (hlists.get_next).trans ?_
        rw [hnil]
        rfl
      rw [hfuel, TradeOrders.moveBack, hnone, ← hend]
      exact ⟨by rw [put_rank]; exact hlists.put_at gid, put_moved ..⟩
  obtain ⟨hs1, hs2, hs3⟩ := pairwise_append.mp hsorted
  obtain ⟨hs4, hs5⟩ := pairwise_cons.mp hs2
  have hout : ∀ z ∈ pre ++ post, z ≠ gid := by
    intro z hz e
    rcases mem_append.mp hz with hz | hz
    · exact lt_irrefl _ (e ▸ hs3 z hz gid mem_cons_self)
    · exact lt_irrefl _ (e ▸ hs4 z hz)
  have hkey : (s.move b gid average value putawayTime).key gid = orderKey average putawayTime gid :=
    (hstays.2.key gid).trans (reprice_key haverage)
  have hkeys : ∀ z ∈ pre ++ post, (s.move b gid average value putawayTime).key z = s.key z :=
    fun z hz => (hstays.2.key z).trans (key_reprice (hout z hz))
  have hrise : s.key gid < orderKey average putawayTime gid := by
    rw [TradeOrders.key, orderKey, orderKey, Prod.Lex.toLex_lt_toLex]
    exact .inl hlt
  have hrest : (pre ++ post).Pairwise fun x y =>
      (s.move b gid average value putawayTime).key x < (s.move b gid average value putawayTime).key y := by
    have hold : (pre ++ post).Pairwise fun x y => s.key x < s.key y :=
      hsorted.sublist (Sublist.append_left (sublist_cons_self gid post) pre)
    refine hold.imp_of_mem fun {x y} hx hy hxy => ?_
    rw [hkeys x hx, hkeys y hy]
    exact hxy
  refine ⟨hstays.2, _, perm_middle, hstays.1, pairwise_between hrest (fun x hx => ?_) fun y hy => ?_⟩
  · rw [hkeys x (mem_append_left _ hx), hkey]
    exact (hs3 x hx gid mem_cons_self).trans hrise
  · rw [hkeys y (mem_append_right _ hy), hkey]
    cases post with
    | nil => exact nomatch hy
    | cons v post =>
      have hv := hpost v rfl
      rcases mem_cons.mp hy with rfl | hy
      · exact hv
      · exact hv.trans ((pairwise_cons.mp hs5).1 y hy)

end Setting

/-! ## The invariant -/

structure TradeOrders.Known (t : TradeOrders) (b : BookKey) (g : ℕ) : Prop where
  le : g ≤ t.lastGid
  number : (t.objects g).gid = g
  book : (t.objects g).book = b
  pos : (t.objects g).pos.isSome
  row : (t.objects g).dbExist = true
  cost : 0 < (t.objects g).cost.value
  address : t.addressing g = some b

structure TradeRun.Kept (s : TradeRun) : Prop where
  ordered : s.Ordered
  known : ∀ b g, s.trade.orders b g = true → s.trade.Known b g
  listed : ∀ g, s.listed g = true → s.trade.orders (s.trade.objects g).book g = true
  addressed : ∀ g b, s.trade.addressing g = some b → g ≤ s.trade.lastGid

theorem TradeRun.init_kept (lastGid : ℕ) (junk : TradeItem) : (TradeRun.init lastGid junk).Kept :=
  ⟨fun b => ⟨[], LuaArray.lists_empty, fun g => by simp [TradeRun.init], List.Pairwise.nil⟩, nofun, nofun, nofun⟩

/-- The state of `SetOrder` before it moves the order: it is `s` but for the order and the rank that it may be new in. -/
structure TradeRun.Enters (s : TradeRun) (b : BookKey) (gid : ℕ) (t : TradeOrders) : Prop where
  ranks : ∀ b', b' ≠ b → t.ranks b' = s.trade.ranks b'
  objects : ∀ g, g ≠ gid → t.objects g = s.trade.objects g
  orders : ∀ b' g, t.orders b' g = true ↔ s.trade.orders b' g = true ∨ b' = b ∧ g = gid
  addressing : t.addressing = s.trade.addressing
  lastGid : t.lastGid = s.trade.lastGid
  number : (t.objects gid).gid = gid
  book : (t.objects gid).book = b
  pos : (t.objects gid).pos.isSome
  once : ∀ b', s.trade.orders b' gid = true → b' = b

section Steps
variable {s : TradeRun} {b : BookKey} {gid : ℕ} {t t' : TradeOrders} {value : ℚ} {putawayTime : ℤ} {xs : List ℕ}
  {updateDatabase : Bool} {lastId : ℕ}

theorem judged_congr {r : TradeOrders} {average : ℚ} (h : ∀ v ∈ xs, t.objects v = r.objects v)
    (hjudged : r.Judged xs average putawayTime gid) : t.Judged xs average putawayTime gid := by
  have hless : ∀ v ∈ xs, r.less average putawayTime gid v = t.less average putawayTime gid v := by
    intro v hv
    simp only [TradeOrders.less, h v hv]
  have hkey : ∀ v ∈ xs, decide (r.key v < orderKey average putawayTime gid) =
      decide (t.key v < orderKey average putawayTime gid) := by
    intro v hv
    rw [TradeOrders.key, TradeOrders.key, h v hv]
  rw [TradeOrders.Judged, filter_congr hless, filter_congr hkey] at hjudged
  exact hjudged

theorem placed_lastGid (hplaced : Placed b gid value putawayTime xs t t') :
    (t'.record b gid updateDatabase lastId).lastGid =
      if updateDatabase = true ∧ (t.objects gid).dbExist = false then lastId else t.lastGid := by
  have hrow : (t'.objects gid).dbExist = (t.objects gid).dbExist := by
    rw [(hplaced.moved.item gid).2.2.2.2, reprice_self]
  rw [record_lastGid, hrow, show t'.lastGid = t.lastGid from hplaced.moved.lastGid]

theorem TradeRun.Kept.place (h : s.Kept) (ht : s.Enters b gid t) (hplaced : Placed b gid value putawayTime xs t t')
    (hxs : ∀ g, g ∈ xs ↔ g ≠ gid ∧ s.listed g = true ∧ (s.trade.objects g).book = b) (hvalue : 0 < value)
    (hrow : (updateDatabase || (t.objects gid).dbExist) = true)
    (hlast : s.trade.lastGid ≤ (t'.record b gid updateDatabase lastId).lastGid)
    (hgid : gid ≤ (t'.record b gid updateDatabase lastId).lastGid) :
    TradeRun.Kept ⟨t'.record b gid updateDatabase lastId, update s.listed gid true⟩ := by
  obtain ⟨hmoved, zs, hperm, hlists, hsorted⟩ := hplaced
  obtain ⟨hnumber, hcommodity, hcost, -, hdb⟩ := hmoved.item gid
  rw [reprice_self] at hnumber hcommodity hcost hdb
  have hbook : ((t'.record b gid updateDatabase lastId).objects gid).book = b := by
    rw [record_objects, if_pos rfl, TradeItem.book]
    show ((t'.objects gid).commodity.type, (t'.objects gid).commodity.id) = b
    rw [hcommodity]
    exact ht.book
  -- the other orders have at most got other positions
  have hother : ∀ g, g ≠ gid →
      { (t'.record b gid updateDatabase lastId).objects g with pos := none } = { s.trade.objects g with pos := none } := by
    intro g hg
    rw [record_objects, if_neg hg, hmoved.objects g, reprice_of_ne hg, ht.objects g hg]
  have hpos : ∀ g, (t.objects g).pos.isSome → ((t'.record b gid updateDatabase lastId).objects g).pos.isSome := by
    intro g hg
    have hstep : (t'.objects g).pos.isSome := by
      apply hmoved.pos
      by_cases he : g = gid
      · rw [he, reprice_self]
        rw [he] at hg
        exact hg
      · rw [reprice_of_ne he]
        exact hg
    rw [record_objects]
    split_ifs with he
    · rw [he] at hstep
      exact hstep
    · exact hstep
  have hbooks : ∀ g, g ≠ gid →
      ((t'.record b gid updateDatabase lastId).objects g).book = (s.trade.objects g).book := by
    intro g hg
    have h1 := hother g hg
    rw [TradeItem.mk.injEq] at h1
    rw [TradeItem.book, TradeItem.book, h1.2.2.1]
  have horders : ∀ b' g, (t'.record b gid updateDatabase lastId).orders b' g = true ↔
      s.trade.orders b' g = true ∨ b' = b ∧ g = gid := by
    intro b' g
    rw [record_orders, show t'.orders = t.orders from hmoved.orders]
    exact ht.orders b' g
  have haddressing : (t'.record b gid updateDatabase lastId).addressing = update s.trade.addressing gid (some b) := by
    rw [record_addressing, show t'.addressing = t.addressing from hmoved.addressing, ht.addressing]
  refine ⟨fun b' => ?_, fun b' g hg => ?_, fun g hg => ?_, fun g b' hg => ?_⟩
  · by_cases hb : b' = b
    · subst hb
      refine ⟨zs, by rw [record_ranks]; exact hlists, fun g => ?_, ?_⟩
      · rw [hperm.mem_iff, mem_cons]
        show g = gid ∨ g ∈ xs ↔
          update s.listed gid true g = true ∧ ((t'.record b' gid updateDatabase lastId).objects g).book = b'
        by_cases he : g = gid
        · subst he
          simp only [true_or, update_self, hbook, and_self]
        · rw [update_of_ne he, hbooks g he, hxs g]
          simp only [he, false_or, ne_eq, not_false_iff, true_and]
      · simpa only [record_key] using hsorted
    · obtain ⟨ys, hys, hmem, hold⟩ := h.ordered b'
      have hgone : ∀ g ∈ ys, g ≠ gid := by
        rintro g hg rfl
        obtain ⟨hlist, hbook'⟩ := (hmem g).mp hg
        have := h.listed g hlist
        rw [hbook'] at this
        exact hb (ht.once b' this)
      refine ⟨ys, ?_, fun g => ?_, ?_⟩
      · rw [record_ranks, hmoved.ranks b' hb]
        show (t.ranks b').Lists ys
        rw [ht.ranks b' hb]
        exact hys
      · show g ∈ ys ↔ update s.listed gid true g = true ∧ ((t'.record b gid updateDatabase lastId).objects g).book = b'
        by_cases he : g = gid
        · subst he
          refine iff_of_false (fun hg => hgone g hg rfl) fun hg => hb ?_
          rw [← hg.2, hbook]
        · rw [update_of_ne he, hbooks g he]
          exact hmem g
      · refine hold.imp_of_mem fun {x y} hx hy hxy => ?_
        have hkey : ∀ z ∈ ys, (t'.record b gid updateDatabase lastId).key z = s.trade.key z := by
          intro z hz
          rw [record_key, hmoved.key, key_reprice (hgone z hz), TradeOrders.key, TradeOrders.key, ht.objects z (hgone z hz)]
        show (t'.record b gid updateDatabase lastId).key x < (t'.record b gid updateDatabase lastId).key y
        rw [hkey x hx, hkey y hy]
        exact hxy
  · by_cases he : g = gid
    · subst he
      have hb : b' = b := by
        rcases (horders b' g).mp hg with hg | ⟨hg, -⟩
        · exact ht.once b' hg
        · exact hg
      subst hb
      refine ⟨hgid, ?_, hbook, hpos g ht.pos, ?_, ?_, by rw [haddressing, update_self]⟩
      · rw [record_objects, if_pos rfl]
        exact hnumber.trans ht.number
      · rw [record_objects, if_pos rfl]
        show (updateDatabase || (t'.objects g).dbExist) = true
        rw [hdb]
        exact hrow
      · rw [record_objects, if_pos rfl]
        show 0 < (t'.objects g).cost.value
        rw [hcost]
        exact hvalue
    · have hold := h.known b' g (((horders b' g).mp hg).resolve_right fun hc => he hc.2)
      have hsame := hother g he
      rw [TradeItem.mk.injEq] at hsame
      refine ⟨hold.le.trans hlast, hsame.1.trans hold.number, (hbooks g he).trans hold.book, hpos g ?_,
        hsame.2.2.2.2.2.2.1.trans hold.row, ?_, ?_⟩
      · rw [ht.objects g he]
        exact hold.pos
      · rw [hsame.2.2.2.1]
        exact hold.cost
      · rw [haddressing, update_of_ne he]
        exact hold.address
  · refine (horders _ g).mpr ?_
    by_cases he : g = gid
    · subst he
      exact .inr ⟨hbook, rfl⟩
    · change update s.listed gid true g = true at hg
      rw [update_of_ne he] at hg
      show s.trade.orders ((t'.record b gid updateDatabase lastId).objects g).book g = true ∨ _
      rw [hbooks g he]
      exact .inl (h.listed g hg)
  · by_cases he : g = gid
    · rw [he]
      exact hgid
    · change (t'.record b gid updateDatabase lastId).addressing g = some b' at hg
      rw [haddressing, update_of_ne he] at hg
      exact (h.addressed g b' hg).trans hlast

theorem TradeRun.Kept.moveOrder {average : ℚ} {n : ℕ} (h : s.Kept) (ht : s.Enters b gid t)
    (hplaced : Placed b gid value putawayTime xs t (t.move b gid average value putawayTime))
    (hxs : ∀ g, g ∈ xs ↔ g ≠ gid ∧ s.listed g = true ∧ (s.trade.objects g).book = b) (hvalue : 0 < value)
    (hrow : (updateDatabase || (t.objects gid).dbExist) = true)
    (hn : (if updateDatabase = true ∧ (t.objects gid).dbExist = false then lastId else s.trade.lastGid) = n)
    (hlast : s.trade.lastGid ≤ n) (hgid : gid ≤ n) :
    (s.set (t.moveOrder b gid average value putawayTime updateDatabase lastId)).Kept := by
  have hnumber : ((t.move b gid average value putawayTime).record b gid updateDatabase lastId).lastGid = n := by
    rw [placed_lastGid hplaced, ht.lastGid]
    exact hn
  exact h.place ht hplaced hxs hvalue hrow (hnumber ▸ hlast) (hnumber ▸ hgid)

theorem TradeRun.Kept.push {average : ℚ} (h : s.Kept) (value : ℚ) (ht : s.Enters b gid t) (hout : gid ∉ (s.trade.ranks b).ipairs)
    (hrank : t.ranks b = s.trade.ranks b ∨ t.ranks b = (s.trade.ranks b).insertLast gid)
    (hpos : (t.objects gid).pos = some ((s.trade.ranks b).len + 1)) (hle : average ≤ (t.objects gid).average)
    (haverage : value / (t.objects gid).commodity.value = average)
    (hjudged : s.trade.Judged (s.trade.ranks b).ipairs average putawayTime gid) :
    ∃ xs, Placed b gid value putawayTime xs t (t.move b gid average value putawayTime) ∧
      ∀ g, g ∈ xs ↔ g ≠ gid ∧ s.listed g = true ∧ (s.trade.objects g).book = b := by
  obtain ⟨xs, hlists, hmem, hsorted⟩ := h.ordered b
  rw [hlists.ipairs] at hout hjudged
  rw [hlists.len] at hpos
  have hother : ∀ z ∈ xs, z ≠ gid := fun z hz e => hout (e ▸ hz)
  have hslide : ∀ stop, ∃ front back, xs = front ++ back ∧ (∀ z ∈ back, stop z = false) ∧
      (∀ z ∈ front.getLast?, stop z = true) ∧
      ((t.ranks b).slideDown stop gid (xs.length + 1)).Lists (front ++ gid :: (back ++ [])) := by
    intro stop
    have hlast : ((t.ranks b).slideDown stop gid (xs.length + 1)) =
        ((s.trade.ranks b).put (xs.length + 1) (some gid)).slideDown stop gid (xs.length + 1) := by
      rw [LuaArray.slideDown_put]
      rcases hrank with hrank | hrank
      · rw [hrank]
      · rw [hrank, LuaArray.insertLast, hlists.len, LuaArray.slideDown_put]
    rw [hlast]
    exact LuaArray.Lists.slideDown stop gid xs (hlists.push gid)
  have hkeys : ∀ z ∈ xs, t.key z = s.trade.key z := fun z hz => by
    rw [TradeOrders.key, TradeOrders.key, ht.objects z (hother z hz)]
  refine ⟨xs, ?_, fun g => ?_⟩
  · have hplaced : Placed b gid value putawayTime (xs ++ []) t (t.move b gid average value putawayTime) := by
      refine move_front hpos hle haverage hslide (by simpa using hout) ?_
        (judged_congr (fun z hz => ht.objects z (hother z hz)) hjudged) nofun
      rw [append_nil]
      refine hsorted.imp_of_mem fun {x y} hx hy hxy => ?_
      rw [hkeys x hx, hkeys y hy]
      exact hxy
    rw [append_nil] at hplaced
    exact hplaced
  · rw [hmem]
    exact ⟨fun hg => ⟨hother g ((hmem g).mpr hg), hg⟩, And.right⟩

theorem TradeRun.Kept.enters_self (h : s.Kept) (hin : s.trade.orders b gid = true) : s.Enters b gid s.trade := by
  have hknown := h.known b gid hin
  refine ⟨fun _ _ => rfl, fun _ _ => rfl, fun b' g => ⟨.inl, ?_⟩, rfl, rfl, hknown.number, hknown.book, hknown.pos,
    fun b' hb' => (h.known b' gid hb').book.symm.trans hknown.book⟩
  rintro (hg | ⟨rfl, rfl⟩)
  · exact hg
  · exact hin

/-- An order in the rank whose position is its own stays among its neighbours, or goes to its place in front of them. -/
theorem TradeRun.Kept.shift {average : ℚ} (h : s.Kept) (hin : s.trade.orders b gid = true)
    (hmem : gid ∈ (s.trade.ranks b).ipairs)
    (haverage : value / (s.trade.objects gid).commodity.value = average)
    (hright : s.trade.Resellable gid average putawayTime) :
    ∃ xs, Placed b gid value putawayTime xs s.trade (s.trade.move b gid average value putawayTime) ∧
      ∀ g, g ∈ xs ↔ g ≠ gid ∧ s.listed g = true ∧ (s.trade.objects g).book = b := by
  have hknown := h.known b gid hin
  obtain ⟨ys, hlists, hys, hsorted⟩ := h.ordered b
  rw [TradeOrders.Resellable] at hright
  rw [hknown.book, hlists.ipairs] at hright
  rw [hlists.ipairs] at hmem
  have hidx : ys.idxOf gid < ys.length := idxOf_lt_length_iff.mpr hmem
  obtain ⟨pre, post, hsplit, hpre, hpost⟩ : ∃ pre post, ys = pre ++ gid :: post ∧ pre.length = ys.idxOf gid ∧
      ys.take (ys.idxOf gid) = pre ∧ ys[ys.idxOf gid + 1]? = post.head? := by
    refine ⟨ys.take (ys.idxOf gid), ys.drop (ys.idxOf gid + 1), ?_, ?_, rfl, ?_⟩
    · have hcut := (take_append_drop (ys.idxOf gid) ys).symm
      rw [drop_eq_getElem_cons hidx, getElem_idxOf hidx] at hcut
      exact hcut
    · rw [length_take]
      omega
    · rw [List.head?_drop]
  have hnodup : ys.Nodup := hsorted.imp fun hxy => ne_of_apply_ne s.trade.key hxy.ne
  have hout : gid ∉ pre ++ post := by
    rw [hsplit, nodup_middle, nodup_cons] at hnodup
    exact hnodup.1
  rw [hpost.2, hpost.1, ← hpre] at hright
  rw [hsplit] at hlists hsorted
  refine ⟨pre ++ post, ?_, fun g => ?_⟩
  · by_cases hle : average ≤ (s.trade.objects gid).average
    · rw [if_pos hle] at hright
      obtain ⟨hpos, hjudged, hnext⟩ : (s.trade.objects gid).pos = some (pre.length + 1) ∧
          s.trade.Judged pre average putawayTime gid ∧ ∀ v ∈ post.head?, orderKey average putawayTime gid < s.trade.key v := by
        rcases hright with ⟨hnot, -⟩ | ⟨-, hright⟩
        · exact absurd hmem hnot
        · exact hright
      exact move_front hpos hle haverage (fun stop => LuaArray.Lists.slideDown stop gid pre hlists) hout
        (hsorted.sublist (Sublist.append_left (sublist_cons_self gid post) pre)) hjudged hnext
    · rw [if_neg hle, hsplit] at hright
      obtain ⟨-, ⟨q, hq, hend⟩, hnext⟩ := hright
      exact move_back (Option.mem_def.mp hq) hknown.cost.ne' (not_le.mp hle) haverage hlists hend hsorted hnext
  · have hg : g ∈ ys ↔ g = gid ∨ g ∈ pre ++ post := by
      rw [hsplit, perm_middle.mem_iff, mem_cons]
    rw [← hys g, hg]
    constructor
    · exact fun hin' => ⟨fun e => hout (e ▸ hin'), .inr hin'⟩
    · exact fun hin' => hin'.2.resolve_left hin'.1

theorem TradeRun.Kept.setNew {g : Option ℕ} {now : ℤ} {pid concernCount : ℕ} {commodity : Commodity} {cost : TradeCost}
    (h : s.Kept) (hg : g.getD (s.trade.lastGid + 1) = gid) (hnew : ∀ b', s.trade.orders b' gid = false)
    (hright : 0 < cost.value → 0 < commodity.value → TradeOrders.sellable commodity.type = true →
      s.trade.Judged (s.trade.ranks (commodity.type, commodity.id)).ipairs (cost.value / commodity.value) putawayTime gid)
    (hlast : s.trade.lastGid ≤ if updateDatabase then lastId else s.trade.lastGid)
    (hgid : gid ≤ if updateDatabase then lastId else s.trade.lastGid) :
    (s.set (s.trade.setOrder now pid g commodity cost putawayTime updateDatabase concernCount lastId)).Kept := by
  unfold TradeOrders.setOrder
  simp only [hg]
  by_cases hcost : cost.value ≤ 0 ∨ commodity.value ≤ 0
  · rw [if_pos hcost]
    exact h
  by_cases hsell : TradeOrders.sellable commodity.type = true
  swap
  · rw [if_neg hcost, if_pos hsell]
    exact h
  rw [if_neg hcost, if_neg (not_not.mpr hsell), if_pos (by simp [hnew])]
  rw [not_or, not_le, not_le] at hcost
  have hunlisted : s.listed gid = false := by
    rw [Bool.eq_false_iff]
    intro hlisted
    exact absurd (h.listed gid hlisted) (by simp [hnew])
  have hout : gid ∉ (s.trade.ranks (commodity.type, commodity.id)).ipairs := by
    obtain ⟨xs, hlists, hmem, -⟩ := h.ordered (commodity.type, commodity.id)
    rw [hlists.ipairs, hmem, hunlisted]
    exact fun hc => nomatch hc.1
  set item : TradeItem := ⟨gid, pid, commodity, cost, putawayTime,
    some ((s.trade.ranks (commodity.type, commodity.id)).len + 1), !updateDatabase, concernCount⟩ with hitem
  set entered : TradeOrders := { s.trade with
    objects := update s.trade.objects gid item
    orders := update s.trade.orders (commodity.type, commodity.id)
      (update (s.trade.orders (commodity.type, commodity.id)) gid true) } with hentered
  have hself : entered.objects gid = item := update_self ..
  have hfields : ∀ t : TradeOrders, t.objects = entered.objects → t.orders = entered.orders →
      t.addressing = entered.addressing → t.lastGid = entered.lastGid →
      (∀ b', b' ≠ (commodity.type, commodity.id) → t.ranks b' = s.trade.ranks b') →
      s.Enters (commodity.type, commodity.id) gid t := by
    intro t hobjects horders haddressing hlastGid hranks
    refine ⟨hranks, fun z hz => ?_, fun b' z => ?_, haddressing, hlastGid, ?_, ?_, ?_, fun b' hb' => ?_⟩
    · rw [hobjects]
      exact update_of_ne hz ..
    · rw [horders]
      show update s.trade.orders (commodity.type, commodity.id) _ b' z = true ↔ _
      by_cases hb : b' = (commodity.type, commodity.id)
      · rw [hb, update_self]
        by_cases hz : z = gid
        · rw [hz, update_self]
          simp
        · rw [update_of_ne hz]
          simp [hz]
      · rw [update_of_ne hb]
        simp [hb]
    · rw [hobjects, hself]
    · rw [hobjects, hself]
      rfl
    · rw [hobjects, hself]
      rfl
    · rw [hnew b'] at hb'
      exact nomatch hb'
  have hdone : ∀ t : TradeOrders, t.objects = entered.objects → s.Enters (commodity.type, commodity.id) gid t →
      (t.ranks (commodity.type, commodity.id) = s.trade.ranks (commodity.type, commodity.id) ∨
        t.ranks (commodity.type, commodity.id) = (s.trade.ranks (commodity.type, commodity.id)).insertLast gid) →
      (s.set (t.moveOrder (commodity.type, commodity.id) gid (cost.value / commodity.value) cost.value putawayTime
        updateDatabase lastId)).Kept := by
    intro t hobjects ht hrank
    obtain ⟨xs, hplaced, hxs⟩ := h.push cost.value ht hout hrank (by rw [hobjects, hself])
      (by rw [hobjects, hself]; exact le_rfl) (by rw [hobjects, hself]) (hright hcost.1 hcost.2 hsell)
    refine h.moveOrder (n := if updateDatabase then lastId else s.trade.lastGid) ht hplaced hxs hcost.1 ?_ ?_ hlast hgid
    · rw [hobjects, hself]
      cases updateDatabase <;> rfl
    · rw [hobjects, hself]
      cases updateDatabase <;> rfl
  cases horder : orderOutdate now putawayTime with
  | true => exact hdone entered rfl (hfields entered rfl rfl rfl rfl fun _ _ => rfl) (.inl rfl)
  | false =>
    refine hdone _ rfl (hfields _ rfl rfl rfl rfl fun b' hb' => ?_) (.inr ?_)
    · exact update_of_ne hb' ..
    · exact update_self ..

theorem TradeRun.Kept.setAgain {now : ℤ} {pid : ℕ} {commodity : Commodity} {cost : TradeCost} (h : s.Kept)
    (hin : s.trade.orders (commodity.type, commodity.id) gid = true)
    (hquantity : commodity.value = (s.trade.objects gid).commodity.value)
    (hright : 0 < cost.value → 0 < commodity.value → (s.trade.objects gid).seller = pid →
      onSell now (s.trade.objects gid).putawayTime = false →
      s.trade.Resellable gid (cost.value / commodity.value) now) :
    (s.set (s.trade.setOrder now pid (some gid) commodity cost now true 0 lastId)).Kept := by
  have hknown := h.known _ gid hin
  unfold TradeOrders.setOrder
  simp only [Option.getD_some]
  split_ifs with hcost _ hpid _ hsell
  all_goals try exact h
  · rw [not_or, not_le, not_le] at hcost
    have hresell := hright hcost.1 hcost.2 (not_not.mp hpid) (Bool.not_eq_true _ ▸ hsell)
    obtain ⟨q, hq⟩ := Option.isSome_iff_exists.mp hknown.pos
    rw [hq]
    have haverage : cost.value / (s.trade.objects gid).commodity.value = cost.value / commodity.value := by rw [hquantity]
    have hplaced : ∃ xs, Placed (commodity.type, commodity.id) gid cost.value now xs s.trade
        (s.trade.move (commodity.type, commodity.id) gid (cost.value / commodity.value) cost.value now) ∧
          ∀ z, z ∈ xs ↔ z ≠ gid ∧ s.listed z = true ∧ (s.trade.objects z).book = (commodity.type, commodity.id) := by
      by_cases hmem : gid ∈ (s.trade.ranks (commodity.type, commodity.id)).ipairs
      · exact h.shift hin hmem haverage hresell
      · rw [TradeOrders.Resellable] at hresell
        rw [hknown.book] at hresell
        split_ifs at hresell with hle
        · rcases hresell with ⟨-, hpos, hjudged⟩ | ⟨hyes, -⟩
          · exact h.push _ (h.enters_self hin) hmem (.inl rfl) hpos hle haverage hjudged
          · exact absurd hyes hmem
        · exact absurd hresell.1 hmem
    obtain ⟨xs, hplaced, hxs⟩ := hplaced
    exact h.moveOrder (h.enters_self hin) hplaced hxs hcost.1 rfl (by simp [hknown.row]) le_rfl hknown.le

/-! ## Removing an order -/

/-- What the removals leave: the rank of `b`, which was `xs`, without the order, and all else but its own entries. -/
structure Dropped (b : BookKey) (gid : ℕ) (xs : List ℕ) (t t' : TradeOrders) : Prop where
  ranks : ∀ b', b' ≠ b → t'.ranks b' = t.ranks b'
  rank : (t'.ranks b).Lists (xs.erase gid)
  objects : ∀ g, { t'.objects g with concernCount := 0 } = { t.objects g with concernCount := 0 }
  orders : ∀ b' g, t'.orders b' g = true → t.orders b' g = true ∧ t'.addressing g = t.addressing g
  others : ∀ b' g, g ≠ gid → t'.orders b' g = t.orders b' g
  addressing : ∀ g b', t'.addressing g = some b' → t.addressing g = some b'
  lastGid : t'.lastGid = t.lastGid

theorem Dropped.item (h : Dropped b gid xs t t') (g : ℕ) :
    (t'.objects g).gid = (t.objects g).gid ∧ (t'.objects g).commodity = (t.objects g).commodity ∧
      (t'.objects g).cost = (t.objects g).cost ∧ (t'.objects g).putawayTime = (t.objects g).putawayTime ∧
      (t'.objects g).pos = (t.objects g).pos ∧ (t'.objects g).dbExist = (t.objects g).dbExist := by
  have hg := h.objects g
  rw [TradeItem.mk.injEq] at hg
  exact ⟨hg.1, hg.2.2.1, hg.2.2.2.1, hg.2.2.2.2.1, hg.2.2.2.2.2.1, hg.2.2.2.2.2.2.1⟩

theorem Dropped.key (h : Dropped b gid xs t t') (g : ℕ) : t'.key g = t.key g := by
  obtain ⟨-, hcommodity, hcost, htime, -⟩ := h.item g
  rw [TradeOrders.key, TradeOrders.key, TradeItem.average, TradeItem.average, hcommodity, hcost, htime]

theorem Dropped.book (h : Dropped b gid xs t t') (g : ℕ) : (t'.objects g).book = (t.objects g).book := by
  rw [TradeItem.book, TradeItem.book, (h.item g).2.1]

theorem TradeRun.Kept.drop (h : s.Kept) (hxs : (s.trade.ranks b).Lists xs) (haddress : s.trade.addressing gid = some b)
    (hdropped : Dropped b gid xs s.trade t) : TradeRun.Kept ⟨t, update s.listed gid false⟩ := by
  refine ⟨fun b' => ?_, fun b' g hg => ?_, fun g hg => ?_, fun g b' hg => ?_⟩
  · obtain ⟨ys, hys, hmem, hsorted⟩ := h.ordered b'
    have hkeys : ∀ zs : List ℕ, zs.Pairwise (fun x y => s.trade.key x < s.trade.key y) →
        zs.Pairwise fun x y => t.key x < t.key y := by
      intro zs hzs
      simpa only [hdropped.key] using hzs
    have hnodup : ys.Nodup := hsorted.imp fun hxy => ne_of_apply_ne s.trade.key hxy.ne
    by_cases hb : b' = b
    · subst hb
      have hsame : ys = xs := by rw [← hys.ipairs, hxs.ipairs]
      subst hsame
      refine ⟨ys.erase gid, hdropped.rank, fun g => ?_, hkeys _ (hsorted.sublist erase_sublist)⟩
      show g ∈ ys.erase gid ↔ update s.listed gid false g = true ∧ (t.objects g).book = b'
      rw [hnodup.mem_erase_iff, hdropped.book, hmem]
      by_cases he : g = gid
      · rw [he, update_self]
        simp
      · rw [update_of_ne he]
        simp [he]
    · refine ⟨ys, ?_, fun g => ?_, hkeys ys hsorted⟩
      · show (t.ranks b').Lists ys
        rw [hdropped.ranks b' hb]
        exact hys
      · show g ∈ ys ↔ update s.listed gid false g = true ∧ (t.objects g).book = b'
        rw [hdropped.book, hmem]
        by_cases he : g = gid
        · subst he
          rw [update_self]
          -- the order is one of `b`
          refine iff_of_false (fun hg => hb ?_) fun hg => nomatch hg.1
          have haddress' := (h.known _ g (h.listed g hg.1)).address
          rw [haddress, hg.2] at haddress'
          exact (Option.some.inj haddress').symm
        · rw [update_of_ne he]
  · obtain ⟨hold, haddressing⟩ := hdropped.orders b' g hg
    have hknown := h.known b' g hold
    obtain ⟨hnumber, -, hcost, -, hpos, hrow⟩ := hdropped.item g
    exact ⟨hknown.le.trans hdropped.lastGid.ge, hnumber.trans hknown.number, (hdropped.book g).trans hknown.book,
      hpos ▸ hknown.pos, hrow.trans hknown.row, hcost ▸ hknown.cost, haddressing.trans hknown.address⟩
  · change update s.listed gid false g = true at hg
    have he : g ≠ gid := by
      rintro rfl
      rw [update_self] at hg
      exact nomatch hg
    rw [update_of_ne he] at hg
    show t.orders (t.objects g).book g = true
    rw [hdropped.book, hdropped.others _ g he]
    exact h.listed g hg
  · exact (h.addressed g b' (hdropped.addressing g b' hg)).trans hdropped.lastGid.ge

theorem TradeRun.Kept.unlist (h : s.Kept) (hunlisted : s.listed gid = false) :
    TradeRun.Kept ⟨s.trade, update s.listed gid false⟩ := by
  have hsame : update s.listed gid false = s.listed := by rw [← hunlisted, update_eq_self]
  rw [hsame]
  exact h

theorem removeRankLoop_absent (fuel : ℕ) : ∀ pos, (∀ i, ∀ v ∈ (t.ranks b).get i, (t.objects v).gid ≠ gid) →
    TradeOrders.removeRankLoop b gid fuel pos t = .ok t := by
  induction fuel with
  | zero => exact fun _ _ => rfl
  | succ fuel ih =>
    intro pos h
    rw [TradeOrders.removeRankLoop]
    cases hpos : (t.ranks b).get pos with
    | none => rfl
    | some v => exact (if_neg (h pos v hpos)).trans (ih (pos + 1) h)

theorem lists_absent (hlists : (t.ranks b).Lists xs) (hnumber : ∀ v ∈ xs, (t.objects v).gid = v) (hout : gid ∉ xs) :
    ∀ i, ∀ v ∈ (t.ranks b).get i, (t.objects v).gid ≠ gid := by
  intro i v hv
  have hmem : v ∈ xs := by
    cases i with
    | zero =>
      rw [hlists.1] at hv
      exact nomatch hv
    | succ i =>
      rw [hlists.2 i] at hv
      exact mem_of_getElem? hv
  rw [hnumber v hmem]
  exact fun e => hout (e ▸ hmem)

theorem Dropped.loop (h : Dropped b gid xs t t') (hnumber : ∀ v ∈ xs, (t.objects v).gid = v) (hnodup : xs.Nodup)
    (fuel pos : ℕ) : TradeOrders.removeRankLoop b gid fuel pos t' = .ok t' := by
  refine removeRankLoop_absent fuel pos (lists_absent h.rank (fun v hv => ?_) hnodup.not_mem_erase)
  rw [(h.item v).1]
  exact hnumber v (mem_of_mem_erase hv)

theorem dropped_entry {ranks : BookKey → LuaArray ℕ} {addressing : ℕ → Option BookKey}
    (hranks : ∀ b', b' ≠ b → ranks b' = t.ranks b') (hrank : (ranks b).Lists (xs.erase gid))
    (hsame : ∀ g, g ≠ gid → addressing g = t.addressing g) (hself : ∀ b', addressing gid = some b' → t.addressing gid = some b')
    (honce : ∀ b', t.orders b' gid = true → b' = b) :
    Dropped b gid xs t
      { t with ranks, addressing, orders := update t.orders b (update (t.orders b) gid false) } := by
  have hothers : ∀ b' g, g ≠ gid → update t.orders b (update (t.orders b) gid false) b' g = t.orders b' g := by
    intro b' g hg
    by_cases hb : b' = b
    · rw [hb, update_self, update_of_ne hg]
    · rw [update_of_ne hb]
  refine ⟨hranks, hrank, fun _ => rfl, fun b' g hg => ?_, hothers, fun g b' hg => ?_, rfl⟩
  · change update t.orders b (update (t.orders b) gid false) b' g = true at hg
    have he : g ≠ gid := by
      rintro rfl
      by_cases hb : b' = b
      · rw [hb, update_self, update_self] at hg
        exact nomatch hg
      · rw [update_of_ne hb] at hg
        exact hb (honce b' hg)
    rw [hothers b' g he] at hg
    exact ⟨hg, hsame g he⟩
  · by_cases he : g = gid
    · rw [he] at hg ⊢
      exact hself b' hg
    · exact (hsame g he).symm.trans hg

theorem dropped_concern {ranks : BookKey → LuaArray ℕ} (hranks : ∀ b', b' ≠ b → ranks b' = t.ranks b')
    (hrank : (ranks b).Lists (xs.erase gid)) :
    Dropped b gid xs t
      { t with ranks, objects := update t.objects gid { t.objects gid with concernCount := 0 } } := by
  refine ⟨hranks, hrank, fun g => ?_, fun _ _ hg => ⟨hg, rfl⟩, fun _ _ _ => rfl, fun _ _ hg => hg, rfl⟩
  show { update t.objects gid _ g with concernCount := 0 } = _
  by_cases he : g = gid
  · rw [he, update_self]
  · rw [update_of_ne he]

theorem dropped_absent (hlists : (t.ranks b).Lists xs) (hout : gid ∉ xs) : Dropped b gid xs t t :=
  ⟨fun _ _ => rfl, (erase_of_not_mem hout).symm ▸ hlists, fun _ => rfl, fun _ _ hg => ⟨hg, rfl⟩, fun _ _ _ => rfl,
    fun _ _ hg => hg, rfl⟩

theorem removeRankLoop_drops (horder : t.orders b gid = true) (honce : ∀ b', t.orders b' gid = true → b' = b) (post : List ℕ) :
    ∀ pre fuel, post.length ≤ fuel → (t.ranks b).Lists (pre ++ post) → (∀ v ∈ pre ++ post, (t.objects v).gid = v) →
      (pre ++ post).Nodup → gid ∉ pre →
        ∃ t', TradeOrders.removeRankLoop b gid fuel (pre.length + 1) t = .ok t' ∧ Dropped b gid (pre ++ post) t t' := by
  induction post with
  | nil =>
    intro pre fuel _ hlists hnumber _ hout
    rw [append_nil] at hlists hnumber ⊢
    exact ⟨t, removeRankLoop_absent fuel _ (lists_absent hlists hnumber hout), dropped_absent hlists hout⟩
  | cons v post ih =>
    intro pre fuel hfuel hlists hnumber hnodup hout
    obtain _ | fuel := fuel
    · exact nomatch hfuel
    have hv : (t.objects v).gid = v := hnumber v (by simp)
    rw [TradeOrders.removeRankLoop, hlists.get_at]
    dsimp only
    rw [hv]
    by_cases he : v = gid
    · subst he
      rw [if_pos rfl]
      have hranks : ∀ b', b' ≠ b →
          update t.ranks b ((t.ranks b).removeAt (pre.length + 1)) b' = t.ranks b' := fun b' hb => update_of_ne hb ..
      have hrank : (update t.ranks b ((t.ranks b).removeAt (pre.length + 1)) b).Lists ((pre ++ v :: post).erase v) := by
        rw [update_self, erase_append_right _ hout, erase_cons_head]
        exact hlists.removeAt
      by_cases hsystem : (t.objects v).seller < 100000
      · rw [if_pos hsystem]
        have hdropped := dropped_entry hranks hrank (fun _ _ => rfl) (fun _ h => h) honce
        exact ⟨_, hdropped.loop hnumber hnodup fuel _, hdropped⟩
      · rw [if_neg hsystem, if_pos horder]
        have hdropped := dropped_concern hranks hrank
        exact ⟨_, hdropped.loop hnumber hnodup fuel _, hdropped⟩
    · rw [if_neg he]
      have hcut : pre ++ v :: post = (pre ++ [v]) ++ post := by simp
      have hlength : pre.length + 1 + 1 = (pre ++ [v]).length + 1 := by simp
      rw [hcut] at hlists hnumber hnodup ⊢
      rw [hlength]
      refine ih (pre ++ [v]) fuel (Nat.le_of_succ_le_succ hfuel) hlists hnumber hnodup ?_
      simp [hout, Ne.symm he]

theorem TradeRun.Kept.removeRank (h : s.Kept) (gid : ℕ) :
    ∃ t, s.trade.removeRank gid = .ok t ∧ TradeRun.Kept ⟨t, update s.listed gid false⟩ := by
  unfold TradeOrders.removeRank
  cases haddress : s.trade.addressing gid with
  | none =>
    refine ⟨s.trade, rfl, h.unlist ?_⟩
    rw [Bool.eq_false_iff]
    intro hlisted
    have := (h.known _ gid (h.listed gid hlisted)).address
    rw [haddress] at this
    exact nomatch this
  | some b =>
    obtain ⟨xs, hlists, hmem, hsorted⟩ := h.ordered b
    have hknown : ∀ v ∈ xs, s.trade.orders b v = true := fun v hv => by
      obtain ⟨hlisted, hbook⟩ := (hmem v).mp hv
      exact hbook ▸ h.listed v hlisted
    have hnumber : ∀ v ∈ xs, (s.trade.objects v).gid = v := fun v hv => (h.known b v (hknown v hv)).number
    have hnodup : xs.Nodup := hsorted.imp fun hxy => ne_of_apply_ne s.trade.key hxy.ne
    by_cases hin : gid ∈ xs
    · have hbook := (h.known b gid (hknown gid hin)).book
      have honce : ∀ b', s.trade.orders b' gid = true → b' = b := fun b' hb' => (h.known b' gid hb').book.symm.trans hbook
      obtain ⟨t, hloop, hdropped⟩ := removeRankLoop_drops (hknown gid hin) honce xs [] (s.trade.ranks b).maxn
        hlists.maxn.ge hlists hnumber hnodup (by simp)
      exact ⟨t, hloop, h.drop hlists haddress hdropped⟩
    · exact ⟨s.trade, removeRankLoop_absent _ _ (lists_absent hlists hnumber hin),
        h.drop hlists haddress (dropped_absent hlists hin)⟩

theorem findIdx_split {p : ℕ → Bool} {k : ℕ} (hfind : xs.findIdx? p = some k) (hp : ∀ v ∈ xs, p v = true ↔ v = gid) :
    ∃ pre post, xs = pre ++ gid :: post ∧ pre.length = k ∧ gid ∉ pre := by
  obtain ⟨hk, hfound, hbefore⟩ := List.findIdx?_eq_some_iff_getElem.mp hfind
  have hat : xs[k] = gid := (hp _ (getElem_mem hk)).mp hfound
  refine ⟨xs.take k, xs.drop (k + 1), ?_, ?_, fun hin => ?_⟩
  · have hcut := (take_append_drop k xs).symm
    rw [drop_eq_getElem_cons hk, hat] at hcut
    exact hcut
  · rw [length_take]
    omega
  · obtain ⟨i, hi, hat'⟩ := mem_take_iff_getElem.mp hin
    exact hbefore i (by omega) ((hp _ (getElem_mem _)).mpr hat')

theorem TradeRun.Kept.removeOrder (h : s.Kept) : TradeRun.Kept ⟨(s.trade.removeOrder gid).1, update s.listed gid false⟩ := by
  have hunlisted : (∀ b, s.trade.addressing gid = some b → s.trade.orders b gid = false) → s.listed gid = false := by
    intro hnone
    rw [Bool.eq_false_iff]
    intro hlisted
    have horder := h.listed gid hlisted
    rw [hnone _ (h.known _ gid horder).address] at horder
    exact nomatch horder
  unfold TradeOrders.removeOrder
  cases haddress : s.trade.addressing gid with
  | none => exact h.unlist (hunlisted (by simp [haddress]))
  | some b =>
    dsimp only
    cases horder : s.trade.orders b gid with
    | false =>
      refine h.unlist (hunlisted fun b' hb' => ?_)
      obtain rfl : b = b' := some_unique haddress hb'
      exact horder
    | true =>
      have hknown := h.known b gid horder
      have honce : ∀ b', s.trade.orders b' gid = true → b' = b := fun b' hb' => (h.known b' gid hb').book.symm.trans hknown.book
      obtain ⟨q, hq⟩ := Option.isSome_iff_exists.mp hknown.pos
      obtain ⟨xs, hlists, hmem, hsorted⟩ := h.ordered b
      have hnumber : ∀ v ∈ xs, (s.trade.objects v).gid = v := fun v hv => by
        obtain ⟨hlisted, hbook⟩ := (hmem v).mp hv
        exact (h.known _ v (h.listed v hlisted)).number
      rw [if_neg (by simp), hq, hlists.ipairs]
      have hsame : ∀ g, g ≠ gid → update s.trade.addressing gid none g = s.trade.addressing g := fun g hg => update_of_ne hg ..
      have hself : ∀ b', update s.trade.addressing gid none gid = some b' → s.trade.addressing gid = some b' := by
        intro b' hb'
        rw [update_self] at hb'
        exact nomatch hb'
      refine h.drop hlists haddress ?_
      dsimp only
      cases hfind : xs.findIdx? fun v => decide ((s.trade.objects v).gid = gid) with
      | none =>
        have hout : gid ∉ xs := by
          intro hin
          have hnot := List.findIdx?_eq_none_iff.mp hfind gid hin
          exact absurd (hnumber gid hin) (by simpa using hnot)
        refine dropped_entry (fun _ _ => rfl) ?_ hsame hself honce
        rw [erase_of_not_mem hout]
        exact hlists
      | some k =>
        obtain ⟨pre, post, hcut, hlength, hout⟩ := findIdx_split hfind fun v hv => by
          rw [hnumber v hv, decide_eq_true_iff]
        subst hcut
        refine dropped_entry (fun b' hb => update_of_ne hb ..) ?_ hsame hself honce
        show (update s.trade.ranks b ((s.trade.ranks b).removeAt (k + 1)) b).Lists ((pre ++ gid :: post).erase gid)
        rw [update_self, erase_append_right _ hout, erase_cons_head, ← hlength]
        exact hlists.removeAt

theorem tradeStep_kept {s' : TradeRun} (c : TradeCall) (h : s.Kept) (hcalled : c.Called s) (hright : c.Right s)
    (hstep : tradeStep s c = .ok s') : s'.Kept := by
  cases c with
  | sell now pid commodity cost lastId =>
    obtain rfl := Except.ok.inj hstep
    refine h.setNew rfl (fun b => Bool.eq_false_iff.mpr fun hb => ?_) hright ?_ hcalled
    · exact absurd (h.known b _ hb).le (Nat.not_succ_le_self _)
    · exact (Nat.le_succ _).trans hcalled
  | load now seller gid commodity cost putawayTime concernCount =>
    obtain rfl := Except.ok.inj hstep
    obtain ⟨hold, haddress⟩ := hcalled
    refine h.setNew rfl (fun b => Bool.eq_false_iff.mpr fun hb => ?_) hright le_rfl hold
    exact nomatch haddress.symm.trans (h.known b gid hb).address
  | resell now pid gid commodity cost =>
    obtain rfl := Except.ok.inj hstep
    exact h.setAgain hcalled.1 hcalled.2 hright
  | removeRank gid =>
    obtain ⟨t, hremove, hkept⟩ := h.removeRank gid
    rw [tradeStep, hremove, ok_bind] at hstep
    obtain rfl := Except.ok.inj hstep
    exact hkept
  | removeOrder gid =>
    obtain rfl := Except.ok.inj hstep
    exact h.removeOrder

end Steps

instance (s : TradeOrders) (xs : List ℕ) (average : ℚ) (putawayTime : ℤ) (gid : ℕ) :
    Decidable (s.Judged xs average putawayTime gid) := inferInstanceAs (Decidable (_ = _))

instance (s : TradeOrders) (gid : ℕ) (average : ℚ) (putawayTime : ℤ) : Decidable (s.Resellable gid average putawayTime) :=
  decidable_of_iff (if average ≤ (s.objects gid).average then _ else _) Iff.rfl

instance  : ∀ c : TradeCall, Decidable (c.Right s)
  | .sell .. => inferInstanceAs (Decidable (_ → _))
  | .load .. => inferInstanceAs (Decidable (_ → _))
  | .resell .. => inferInstanceAs (Decidable (_ → _))
  | .removeRank _ => .isTrue trivial
  | .removeOrder _ => .isTrue trivial

instance  : ∀ c : TradeCall, Decidable (c.Called s)
  | .sell .. => inferInstanceAs (Decidable (_ ≤ _))
  | .load .. => inferInstanceAs (Decidable (_ ∧ _))
  | .resell .. => inferInstanceAs (Decidable (_ ∧ _))
  | .removeRank _ => .isTrue trivial
  | .removeOrder _ => .isTrue trivial

theorem orderBook_ordered (lastGid : ℕ) (junk : TradeItem) (calls : List TradeCall)
    (hcalled : Along tradeStep (fun s c => c.Called s) (TradeRun.init lastGid junk) calls)
    (hright : Along tradeStep (fun s c => c.Right s) (TradeRun.init lastGid junk) calls) :
    Throughout tradeStep TradeRun.Ordered (TradeRun.init lastGid junk) calls :=
  run_throughout (fun _ h => h.ordered) (fun _ c _ h hc => tradeStep_kept c h hc.1 hc.2) calls _
    (TradeRun.init_kept lastGid junk) (hcalled.and hright)

def TradeItem.junk : TradeItem := ⟨0, 0, ⟨0, 0, 0, 0, 0, 0⟩, ⟨0, 0, 0⟩, 0, none, false, 0⟩

theorem orderBook_ordered_six :
    Throughout tradeStep TradeRun.Ordered (TradeRun.init 2 TradeItem.junk)
      [.load 100 200001 1 ⟨41, 7, 10, 0, 0, 0⟩ ⟨41, 90006, 300⟩ 50 0,
        .load 100 200002 2 ⟨41, 7, 10, 0, 0, 0⟩ ⟨41, 90006, 200⟩ 60 3,
        .sell 110 200003 ⟨41, 7, 5, 0, 0, 0⟩ ⟨41, 90006, 120⟩ 3,
        .sell 120 200001 ⟨41, 8, 5, 0, 0, 0⟩ ⟨41, 90006, 120⟩ 4,
        .removeOrder 4, .removeRank 1, .resell 90000 200003 3 ⟨41, 7, 5, 0, 0, 0⟩ ⟨41, 90006, 90⟩] :=
  orderBook_ordered 2 TradeItem.junk _ (by decide +kernel) (by decide +kernel)

/-- The first of two orders is taken out of the rank after a day and listed again at its price: it is put over the other
one, which is on sale. -/
theorem orderBook_overwrites :
    Along tradeStep (fun s c => c.Called s) (TradeRun.init 0 TradeItem.junk)
        [.sell 0 200001 ⟨41, 7, 1, 0, 0, 0⟩ ⟨41, 90006, 10⟩ 1, .sell 100 200002 ⟨41, 7, 1, 0, 0, 0⟩ ⟨41, 90006, 20⟩ 2,
          .removeRank 1, .resell 86450 200001 1 ⟨41, 7, 1, 0, 0, 0⟩ ⟨41, 90006, 10⟩] ∧
      ¬ Throughout tradeStep TradeRun.Ordered (TradeRun.init 0 TradeItem.junk)
        [.sell 0 200001 ⟨41, 7, 1, 0, 0, 0⟩ ⟨41, 90006, 10⟩ 1, .sell 100 200002 ⟨41, 7, 1, 0, 0, 0⟩ ⟨41, 90006, 20⟩ 2,
          .removeRank 1, .resell 86450 200001 1 ⟨41, 7, 1, 0, 0, 0⟩ ⟨41, 90006, 10⟩] := by
  refine ⟨by decide +kernel, not_throughout (fun s => decide ((s.trade.ranks (41, 7)).ipairs = [1] ∧ s.listed 2 = true ∧
    (s.trade.objects 2).book = (41, 7))) (by decide +kernel) fun s hs h => ?_⟩
  obtain ⟨hranks, hlisted, hbook⟩ := of_decide_eq_true hs
  obtain ⟨xs, hlists, hmem, -⟩ := h (41, 7)
  rw [hlists.ipairs] at hranks
  have hin := (hmem 2).mpr ⟨hlisted, hbook⟩
  rw [hranks] at hin
  simp at hin

end CServer.Consume
