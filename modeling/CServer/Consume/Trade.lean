import CServer.Lib.Memory
import CServer.Lib.Exec
import CServer.Lib.Keyed

/-! # `consume/Trade.lua`: the market of the players

Selling, taking back and buying are requests that wait for the cell and the mail service; while one
waits others run. `inFlight` holds the requests that wait, with what each goes on with, and `reply`
is the answer of the service one of them waits for. A call that succeeds has its effect at the
service, which `log` records with the request that made it; the log also has the answers to players.
-/
namespace CServer.Consume
open CServer.Lib

/-! ## Data -/

structure Cost where
  type : ℕ
  id : ℕ
  value : ℤ
  deriving DecidableEq

structure Commodity where
  type : ℕ
  id : ℕ
  value : ℤ
  uuid : ℕ
  equipLevel : ℕ := 0
  equipQuality : ℕ := 0
  deriving DecidableEq

def commodityTypeItem : ℕ := 41
def commodityTypeEquip : ℕ := 45
def commodityTypeEquip2 : ℕ := 43

structure Order where
  gid : ℕ
  seller : ℕ
  commodity : Commodity
  cost : Cost
  putawayTime : ℕ
  deriving DecidableEq

structure Cfg where
  saleValue : ℤ
  assessPriceType : ℕ
  assessPriceId : ℕ
  feeType : ℕ
  feeId : ℕ
  feeRate : ℚ

/-- The tables of `TradeConfig`; an exchange rate is `rate1` and `rate2`. -/
structure Tables where
  trade : ℕ → ℕ → Option Cfg
  exchangeRate : ℕ → ℕ → Option (ℚ × ℚ)

inductive Result
  | success
  | error
  | paramError
  | notExist
  | tradeNotExist
  | tradeOutOfDate
  | tradeExchangeFail
  deriving DecidableEq

inductive Waiting
  | sell (commodity : Commodity) (fee : Cost)
  | takeBack (order : Order)
  | buyerName (order : Order) (tax : ℤ)
  | mail (order : Order) (tax : ℤ)
  | charge (order : Order)
  | deliver (order : Order)
  deriving DecidableEq

structure Request where
  rid : ℕ
  pid : ℕ
  at' : Waiting
  deriving DecidableEq

/-- What happened at a service, and what a player was answered; `silent` is a request that ends
without an answer. -/
inductive Event
  | taken (rid pid : ℕ) (commodity : Commodity) (fee : Cost)
  | credited (rid gid seller : ℕ) (profit : Cost) (tax : ℤ)
  | charged (rid gid pid : ℕ) (cost : Cost)
  | handed (rid gid pid : ℕ) (commodity : Commodity)
  | answered (rid : ℕ) (result : Result)
  | silent (rid : ℕ)
  deriving DecidableEq

/-- `cost` is the global that `process_trade_sell` assigns: there is one for all requests. -/
structure Market where
  orders : List Order := []
  lastGid : ℕ := 0
  cost : Option Cost := none
  now : ℕ := 0
  inFlight : List Request := []
  nextRid : ℕ := 0
  log : List Event := []
  deriving DecidableEq

/-! ## Orders -/

namespace Market
variable (s : Market)

def getOrder (gid : ℕ) : Option Order := lookup Order.gid gid s.orders

def orderOutdate (putawayTime : ℕ) : Bool := decide (24 * 3600 < s.now - putawayTime)

/-- `TradeOrders.SetOrder` of a new order; the row in the database gets the next number. -/
def setOrder (pid : ℕ) (commodity : Commodity) (cost : Cost) : Option Market :=
  if cost.value ≤ 0 ∨ commodity.value ≤ 0 then none
  else some { s with
    orders := s.orders ++ [⟨s.lastGid + 1, pid, commodity, cost, s.now⟩]
    lastGid := s.lastGid + 1 }

def removeOrder (gid : ℕ) : Option Market :=
  match s.getOrder gid with
  | none => none
  | some _ => some { s with orders := discard Order.gid gid s.orders }

/-! ## Requests -/

def note (e : Event) : Market := { s with log := s.log ++ [e] }

def wait (r : Request) (w : Waiting) : Market :=
  { s with inFlight := adjust Request.rid r.rid (fun r => { r with at' := w }) s.inFlight }

def finish (rid : ℕ) (e : Event) : Market :=
  { s with inFlight := discard Request.rid rid s.inFlight, log := s.log ++ [e] }

def answer (rid : ℕ) (result : Result) : Market := s.finish rid (.answered rid result)

def start (pid : ℕ) (w : Waiting) : Market :=
  { s with inFlight := s.inFlight ++ [⟨s.nextRid, pid, w⟩], nextRid := s.nextRid + 1 }

def refuse (e : ℕ → Event) : Market := { s with nextRid := s.nextRid + 1, log := s.log ++ [e s.nextRid] }

end Market

/-! ## Selling -/

variable (T : Tables)

def checkCommodityValid (commodity : Commodity) : Bool :=
  match T.trade commodity.type commodity.id with
  | none => false
  | some cfg => cfg.saleValue == commodity.value

def checkPriceValid (assessPrice : ℚ) (commodity : Commodity) (cost : Cost) : Bool :=
  match T.trade commodity.type commodity.id with
  | none => false
  | some cfg =>
    cfg.assessPriceType == cost.type && cfg.assessPriceId == cost.id &&
      decide (cost.value ≤ ⌊assessPrice * (3 / 2)⌋) && decide (⌊assessPrice * (1 / 2)⌋ ≤ cost.value)

def calcServiceCharge (price : ℤ) (serviceChargeRate : ℚ) : ℤ :=
  let charge := ⌊price * serviceChargeRate / 100⌋
  if charge < 100 then 100 else if 10000 < charge then 10000 else charge

def serviceFee (cfg : Cfg) (cost : Cost) : Cost :=
  let value :=
    if cfg.feeType = cost.type ∧ cfg.feeId = cost.id then cost.value
    else
      match T.exchangeRate cost.id cfg.feeId with
      | none => cost.value
      | some (rate1, rate2) => ⌊rate2 / rate1 * cost.value⌋
  ⟨cfg.feeType, cfg.feeId, calcServiceCharge value cfg.feeRate⟩

/-- `process_trade_sell` of a new order, up to the call of the cell. -/
def processTradeSell (s : Market) (pid : ℕ) (commodity : Option Commodity) (price : Option ℤ)
    (assessPrice : ℚ) : Market :=
  match commodity, price with
  | none, _ => s.refuse (.answered · .paramError)
  | some _, none => s.refuse (.answered · .paramError)
  | some commodity, some price =>
    if checkCommodityValid T commodity then
      match T.trade commodity.type commodity.id with
      | none => s.refuse (.answered · .error)
      | some cfg =>
        let cost : Cost := ⟨cfg.assessPriceType, cfg.assessPriceId, price⟩
        let s := { s with cost := some cost }
        if checkPriceValid T assessPrice commodity cost then
          let fee := serviceFee T cfg cost
          if commodity.type = commodityTypeEquip ∨ commodity.type = commodityTypeEquip2 ∨
              commodity.type = commodityTypeItem then
            s.start pid (.sell commodity fee)
          else s.refuse (.answered · .paramError)
        else s.refuse (.answered · .error)
    else s.refuse (.answered · .error)

variable (s : Market)

variable (r : Request)

/-- `process_trade_sell` from the answer of the cell on, which for an equip tells its level and
quality. The cost is the one that was assigned last, by whichever request; `SetOrder` raises on `nil`. -/
def sellReply (commodity : Commodity) (fee : Cost) (ok : Bool) (level quality : ℕ) :
    Market :=
  if ok then
    let s := s.note (.taken r.rid r.pid commodity fee)
    let commodity :=
      if commodity.type = commodityTypeItem then { commodity with equipLevel := 0, equipQuality := 0 }
      else { commodity with equipLevel := level, equipQuality := quality }
    match s.cost with
    | none => s.finish r.rid (.silent r.rid)
    | some cost =>
      match s.setOrder r.pid commodity cost with
      | none => s.answer r.rid .error
      | some s => s.answer r.rid .success
  else s.answer r.rid .error

/-! ## Taking back -/

def removeAfterTakeBack (rid gid : ℕ) : Market :=
  match s.removeOrder gid with
  | none => s.answer rid .error
  | some s => s.answer rid .success

/-- `process_trade_take_back` up to the call of the cell, which is made for the three types that can be
put up. The order of another player is refused with an error in the text of the log message, so that
there is no answer. -/
def processTradeTakeBack (pid : ℕ) (gid : Option ℕ) : Market :=
  match gid with
  | none => s.refuse (.answered · .paramError)
  | some gid =>
    match s.getOrder gid with
    | none => s.refuse (.answered · .notExist)
    | some order =>
      if order.seller ≠ pid then s.refuse .silent
      else if order.commodity.type = commodityTypeItem ∨ order.commodity.type = commodityTypeEquip ∨
          order.commodity.type = commodityTypeEquip2 then
        s.start pid (.takeBack order)
      else removeAfterTakeBack { s with nextRid := s.nextRid + 1 } s.nextRid gid

def takeBackReply (order : Order) (ok : Bool) : Market :=
  if ok then
    removeAfterTakeBack (s.note (.handed r.rid order.gid order.seller order.commodity)) r.rid order.gid
  else s.answer r.rid .error

/-! ## Buying -/

/-- `process_trade_buy` up to the name of the buyer; `taxRate` is what `GetTradingTax` returns,
`recorded` what `doTradeRecord` does. -/
def processTradeBuy (s : Market) (pid : ℕ) (gid : Option ℕ) (taxRate : ℚ) (recorded : Bool) : Market :=
  match gid with
  | none => s.refuse (.answered · .paramError)
  | some gid =>
    match s.getOrder gid with
    | none => s.refuse (.answered · .tradeNotExist)
    | some order =>
      if s.orderOutdate order.putawayTime then s.refuse (.answered · .tradeOutOfDate)
      else
        let tax := ⌊order.cost.value * taxRate⌋
        if recorded then
          match T.trade order.commodity.type order.commodity.id with
          | none => s.refuse (.answered · .error)
          | some _ => s.start pid (.buyerName order tax)
        else s.refuse (.answered · .error)

def mailReply (order : Order) (tax : ℤ) (ok : Bool) : Market :=
  let profit := { order.cost with value := order.cost.value - tax }
  let s := if ok then s.note (.credited r.rid order.gid order.seller profit tax) else s
  s.wait r (.charge order)

def chargeReply (order : Order) (ok : Bool) : Market :=
  if ok then (s.note (.charged r.rid order.gid r.pid order.cost)).wait r (.deliver order)
  else s.answer r.rid .tradeExchangeFail

/-- The end of `process_trade_buy`; `concern` is whether the row of those who watch the order could be
deleted. -/
def deliverReply (order : Order) (ok concern : Bool) : Market :=
  if ok then
    let s := s.note (.handed r.rid order.gid r.pid order.commodity)
    match s.removeOrder order.gid with
    | none => s.answer r.rid .error
    | some s => if concern then s.answer r.rid .success else s.finish r.rid (.silent r.rid)
  else s.answer r.rid .error

/-! ## Steps -/

inductive Act
  | clock (seconds : ℕ)
  | sell (pid : ℕ) (commodity : Option Commodity) (price : Option ℤ) (assessPrice : ℚ)
  | takeBack (pid : ℕ) (gid : Option ℕ)
  | buy (pid : ℕ) (gid : Option ℕ) (taxRate : ℚ) (recorded : Bool)
  | reply (rid : ℕ) (ok : Bool) (level quality : ℕ) (concern : Bool)

def reply (ok : Bool) (level quality : ℕ) (concern : Bool) : Market :=
  match r.at' with
  | .sell commodity fee => sellReply s r commodity fee ok level quality
  | .takeBack order => takeBackReply s r order ok
  | .buyerName order tax => s.wait r (.mail order tax)
  | .mail order tax => mailReply s r order tax ok
  | .charge order => chargeReply s r order ok
  | .deliver order => deliverReply s r order ok concern

def step (s : Market) : Act → Except Fault Market
  | .clock seconds => .ok { s with now := s.now + seconds }
  | .sell pid commodity price assessPrice => .ok (processTradeSell T s pid commodity price assessPrice)
  | .takeBack pid gid => .ok (processTradeTakeBack s pid gid)
  | .buy pid gid taxRate recorded => .ok (processTradeBuy T s pid gid taxRate recorded)
  | .reply rid ok level quality concern =>
    match lookup Request.rid rid s.inFlight with
    | none => .ok s
    | some r => .ok (reply s r ok level quality concern)

end CServer.Consume
