import EuNEx.Common.Types
import EuNEx.Lib.OrdMap
import Mathlib.Data.Finmap
import Mathlib.Data.List.Sort
import Mathlib.Data.List.Destutter
import Mathlib.Order.Defs.LinearOrder
import Mathlib.Data.Int.Order.Basic

/-!
# The order book

`common/Book.hpp` and `common/Book.cpp`. The callbacks `onTrade` and `onExec` become a log of
events; `entry` and `exit` events are history that the verification adds (an order receives its
id; an order leaves the book other than by being filled) and correspond to no callback.

The fill loops of `matchBuy`, `matchSell` and `uncross` erase from the containers they iterate
over: they are `OrdMap.sweep` with the loop conditions and the loop body of the source.
-/

namespace EuNEx

instance : (s : Side) → DecidableRel s.before
  | .buy => inferInstanceAs (DecidableRel fun p q : ℤ => p > q)
  | .sell => inferInstanceAs (DecidableRel fun p q : ℤ => p < q)

instance : (s : Side) → IsStrictTotalOrder ℤ s.before
  | .buy => inferInstanceAs (IsStrictTotalOrder ℤ (· > ·))
  | .sell => inferInstanceAs (IsStrictTotalOrder ℤ (· < ·))

/-- The price levels of one side, `BidMap` or `AskMap`: a vector of orders at each price. -/
abbrev Levels (s : Side) := OrdMap s.before (List Order)

/-- `orderIndex_`: side and price of every resting order. -/
abbrev OrderIndex := Finmap fun _ : ℕ => Side × ℤ

structure Book where
  symbolIdx : ℕ
  nextTradeId : ℕ := 1
  nextOrderId : ℕ := 1
  lastTradePrice : ℤ := 0
  phase : TradingPhase := .cts
  bids : Levels .buy := ∅
  asks : Levels .sell := ∅
  orderIndex : OrderIndex := ∅
  stopOrders : List Order := []

inductive BookEvent where
  | entry (order : Order)
  | trade (trade : Trade)
  | exec (report : ExecutionReport)
  | exit (order : Order)
deriving DecidableEq, Repr

namespace Book

variable (b : Book)

/-- `bids_` or `asks_`. -/
def levels : (s : Side) → Levels s
  | .buy => b.bids
  | .sell => b.asks

def setLevels : (s : Side) → Levels s → Book
  | .buy, levels => { b with bids := levels }
  | .sell, levels => { b with asks := levels }

/-! ### Queries -/

/-- `getIOP` and `getLevels` sum the remaining quantities of a vector in a `Quantity_t`. -/
def sumRemaining (orders : List Order) (acc : ℕ) : ℕ :=
  orders.foldl (fun acc o => addQty acc o.remainingQty) acc

def bestBid : ℤ :=
  match b.bids.first? with
  | none => 0
  | some level => level.1

def bestAsk : ℤ :=
  match b.asks.first? with
  | none => 0
  | some level => level.1

structure Level where
  price : ℤ
  totalQty : ℕ
  orderCount : ℕ
deriving DecidableEq, Repr

def getLevels {s : Side} (levels : Levels s) (depth : ℕ) : List Level :=
  (levels.entries.take depth).map fun level =>
    ⟨level.1, sumRemaining level.2 0, level.2.length⟩

def getBids (depth : ℕ) : List Level := getLevels b.bids depth

def getAsks (depth : ℕ) : List Level := getLevels b.asks depth

def stopOrderCount : ℕ := b.stopOrders.length

/-! ### Phase and resting orders -/

def setPhase (phase : TradingPhase) : Book := { b with phase := phase }

/-- `insertResting`: index the order and push it back at its price. -/
def insertResting (order : Order) : Book :=
  { b.setLevels order.side
      ((b.levels order.side).upsert order.price fun level => level.getD [] ++ [order]) with
    orderIndex := b.orderIndex.insert order.orderId (order.side, order.price) }

end Book

/-! ### Execution reports -/

/-- The positional initialiser of a report that no trade belongs to. -/
def Order.report (o : Order) (status : OrderStatus) (filledQty remainingQty : ℕ) :
    ExecutionReport :=
  ⟨o.orderId, o.clOrdId, status, filledQty, remainingQty, 0, 0, 0⟩

/-- The report of a fill, the same in `matchBuy`, `matchSell` and `uncross`. -/
def Order.fillReport (o : Order) (price : ℤ) (traded : ℕ) (tradeId : ℕ) :
    ExecutionReport :=
  ⟨o.orderId, o.clOrdId, if o.remainingQty = 0 then .filled else .partiallyFilled,
    o.quantity - o.remainingQty, o.remainingQty, price, traded, tradeId⟩

/-! ### The fill loops -/

/-- The book after an operation, with the events of the operation. -/
structure Outcome where
  book : Book
  log : List BookEvent

/-- The state of a fill loop: the book, the events so far, and the order being filled. -/
structure Matching extends Outcome where
  incoming : Order

/-- What the fill loops differ in: which of the two orders is the buyer, and whether the order
being filled gets a report for each fill. -/
structure FillLoop where
  trade : Book → Order → Order → ℤ → ℕ → Trade
  reportsIncoming : Bool

/-- The body of a fill loop: trade against one resting order. It stops when the incoming order
has nothing left, and erases a resting order that has nothing left. -/
def FillLoop.visit (loop : FillLoop) (tradePrice : ℤ) (m : Matching) (order : Order) :
    Option (Matching × Option Order) :=
  if m.incoming.remainingQty = 0 then none
  else
    let traded := min m.incoming.remainingQty order.remainingQty
    let trade := loop.trade m.book m.incoming order tradePrice traded
    let incoming := { m.incoming with remainingQty := m.incoming.remainingQty - traded }
    let resting := { order with remainingQty := order.remainingQty - traded }
    let book := { m.book with
      nextTradeId := m.book.nextTradeId + 1
      lastTradePrice := tradePrice
      orderIndex := if resting.remainingQty = 0 then m.book.orderIndex.erase resting.orderId
        else m.book.orderIndex }
    let log := m.log ++ [.trade trade, .exec (resting.fillReport tradePrice traded trade.tradeId)]
      ++ if loop.reportsIncoming then
          [.exec (incoming.fillReport tradePrice traded trade.tradeId)] else []
    some (⟨⟨book, log⟩, incoming⟩, if resting.remainingQty = 0 then none else some resting)

/-- `matchBuy`: the incoming order buys. -/
def FillLoop.matchBuy : FillLoop where
  trade b incoming resting tradePrice traded :=
    { tradeId := b.nextTradeId
      symbolIdx := b.symbolIdx
      price := tradePrice
      quantity := traded
      buyOrderId := incoming.orderId
      sellOrderId := resting.orderId
      buyClOrdId := incoming.clOrdId
      sellClOrdId := resting.clOrdId
      buySessionId := incoming.sessionId
      sellSessionId := resting.sessionId }
  reportsIncoming := false

/-- `matchSell`: the incoming order sells. -/
def FillLoop.matchSell : FillLoop where
  trade b incoming resting tradePrice traded :=
    { tradeId := b.nextTradeId
      symbolIdx := b.symbolIdx
      price := tradePrice
      quantity := traded
      buyOrderId := resting.orderId
      sellOrderId := incoming.orderId
      buyClOrdId := resting.clOrdId
      sellClOrdId := incoming.clOrdId
      buySessionId := resting.sessionId
      sellSessionId := incoming.sessionId }
  reportsIncoming := false

/-- `uncross`: the order being filled is an ask, and both sides get a report. -/
def FillLoop.uncross : FillLoop where
  trade b ask bid iop traded :=
    { tradeId := b.nextTradeId
      symbolIdx := b.symbolIdx
      price := iop
      quantity := traded
      buyOrderId := bid.orderId
      sellOrderId := ask.orderId
      buyClOrdId := bid.clOrdId
      sellClOrdId := ask.clOrdId
      buySessionId := bid.sessionId
      sellSessionId := ask.sessionId }
  reportsIncoming := true

/-- The outer loop of `matchBuy` and `matchSell` over the levels of side `s`: stop once the
incoming order is filled, or, unless it is a market order, at the first level that is `beyond`
its price. -/
def Matching.sweepSide (s : Side) (beyond : ℤ → ℤ → Bool) (loop : FillLoop)
    (m : Matching) : Matching :=
  match (m.book.levels s).sweep
      (fun m price => m.incoming.remainingQty = 0 ||
        m.incoming.ordType ≠ .market && beyond price m.incoming.price)
      loop.visit m with
  | (m', levels) => { m' with book := m'.book.setLevels s levels }

def Matching.matchBuy (m : Matching) : Matching :=
  m.sweepSide .sell (fun askPrice price => askPrice > price) .matchBuy

def Matching.matchSell (m : Matching) : Matching :=
  m.sweepSide .buy (fun bidPrice price => bidPrice < price) .matchSell

/-! ### New orders -/

/-- The sum the fill-or-kill check forms over the levels of the other side, in their order. -/
def Order.available (order : Order) (beyond : ℤ → ℤ → Bool) :
    List (ℤ × List Order) → ℕ → ℕ
  | [], available => available
  | (price, orders) :: rest, available =>
    if order.ordType ≠ .market ∧ beyond price order.price then available
    else if order.quantity ≤ Book.sumRemaining orders available then
      Book.sumRemaining orders available
    else order.available beyond rest (Book.sumRemaining orders available)

def Book.available (b : Book) (order : Order) : ℕ :=
  match order.side with
  | .buy => order.available (fun askPrice price => askPrice > price) b.asks.entries 0
  | .sell => order.available (fun bidPrice price => bidPrice < price) b.bids.entries 0

/-- Park a stop order without matching. -/
def Matching.park (m : Matching) : Matching :=
  { m with
    book := { m.book with stopOrders := m.book.stopOrders ++ [m.incoming] }
    log := m.log ++ [.exec (m.incoming.report .new 0 m.incoming.quantity)] }

/-- PreOpen and Opening: accumulate on the book without matching. -/
def Matching.accumulate (m : Matching) : Matching :=
  { m with
    book := m.book.insertResting m.incoming
    log := m.log ++ [.exec (m.incoming.report .new 0 m.incoming.quantity)] }

def Matching.reject (m : Matching) : Matching :=
  { m with
    incoming := { m.incoming with status := .rejected }
    log := m.log ++
      [.exit m.incoming, .exec (m.incoming.report .rejected 0 m.incoming.quantity)] }

def Matching.execute (m : Matching) : Matching :=
  match m.incoming.side with
  | .buy => m.matchBuy
  | .sell => m.matchSell

/-- The resting logic after matching: market and IOC orders never rest. -/
def Matching.settle (m : Matching) : Matching :=
  let order := m.incoming
  if 0 < order.remainingQty then
    if order.ordType = .market ∨ order.tif = .ioc then
      { m with
        incoming := { order with status := .cancelled }
        log := m.log ++ [.exit order,
          .exec (order.report .cancelled (order.quantity - order.remainingQty) 0)] }
    else
      let order := { order with
        status := if order.remainingQty < order.quantity then .partiallyFilled else .new }
      { m with
        book := m.book.insertResting order
        incoming := order
        log := m.log ++ [.exec (order.report order.status (order.quantity - order.remainingQty)
          order.remainingQty)] }
  else
    { m with
      incoming := { order with status := .filled }
      log := m.log ++ [.exec (order.report .filled order.quantity 0)] }

namespace Book

variable (b : Book)

/-- The order as `newOrder` enters it. -/
def entered (order : Order) : Order :=
  { order with orderId := b.nextOrderId, remainingQty := order.quantity, status := .new }

/-- `allocateOrderId` for an incoming order. -/
def enter (order : Order) : Matching where
  book := { b with nextOrderId := b.nextOrderId + 1 }
  log := [.entry (b.entered order)]
  incoming := b.entered order

def newOrder (order : Order) : Matching :=
  if order.ordType = .stopMarket ∨ order.ordType = .stopLimit then (b.enter order).park
  else if b.phase = .preOpen ∨ b.phase = .opening then (b.enter order).accumulate
  else if b.phase = .closed then (b.enter order).reject
  else if order.tif = .fok ∧ b.available order < order.quantity then (b.enter order).reject
  else (b.enter order).execute.settle

/-! ### Stop orders -/

/-- A buy stop is triggered by a price rising to it, a sell stop by a price falling to it. -/
def triggers (tradePrice : ℤ) (stop : Order) : Bool :=
  match stop.side with
  | .buy => tradePrice ≥ stop.stopPrice
  | .sell => tradePrice ≤ stop.stopPrice

/-- The executable order that a triggered stop is converted to. -/
def converted (stop : Order) : Order where
  orderId := 0
  clOrdId := stop.clOrdId
  symbolIdx := stop.symbolIdx
  side := stop.side
  ordType := if stop.ordType = .stopMarket then .market else .limit
  tif := stop.tif
  price := if stop.ordType = .stopMarket then 0 else stop.price
  quantity := stop.remainingQty
  remainingQty := 0
  sessionId := stop.sessionId
  status := .new
  stopPrice := 0

/-- Enter the converted orders one after the other. -/
def enterConverted : Outcome → List Order → Outcome
  | out, [] => out
  | out, stop :: stops =>
    let m := out.book.newOrder (converted stop)
    enterConverted ⟨m.book, out.log ++ m.log⟩ stops

def triggerStopOrders (tradePrice : ℤ) : Outcome :=
  let remaining := b.stopOrders.filter fun stop => !triggers tradePrice stop
  let triggered := b.stopOrders.filter fun stop => triggers tradePrice stop
  enterConverted ⟨{ b with stopOrders := remaining }, triggered.map .exit⟩ triggered

/-! ### Cancel and modify -/

/-- A successful cancel: the report it fills in, and the order it removed. -/
structure Cancel where
  book : Book
  report : ExecutionReport
  removed : Order

def cancelStopOrder (orderId : ℕ) : Option Cancel :=
  (b.stopOrders.find? fun stop => stop.orderId = orderId).map fun stop =>
    { book := { b with stopOrders := b.stopOrders.eraseP fun stop => stop.orderId = orderId }
      report := ⟨orderId, stop.clOrdId, .cancelled, 0, 0, 0, 0, 0⟩
      removed := stop }

/-- The two branches of `cancelOrder` for a resting order, one for each side. -/
def cancelResting (orderId : ℕ) (side : Side) (price : ℤ) : Option Cancel :=
  match (b.levels side).find? price with
  | none => none
  | some vec =>
    (vec.find? fun o => o.orderId = orderId).map fun o =>
      { book := { b.setLevels side ((b.levels side).adjust price fun vec =>
            let vec := vec.eraseP fun o => o.orderId = orderId
            if vec.isEmpty then none else some vec) with
          orderIndex := b.orderIndex.erase orderId }
        report := ⟨orderId, o.clOrdId, .cancelled, o.quantity - o.remainingQty, 0, 0, 0, 0⟩
        removed := o }

def cancelOrder (orderId : ℕ) : Option Cancel :=
  match b.cancelStopOrder orderId with
  | some c => some c
  | none =>
    match b.orderIndex.lookup orderId with
    | none => none
    | some (side, price) => b.cancelResting orderId side price

/-- The order that `modifyOrder` puts in the place of the cancelled one. Its side is read off the
level map at the report's `lastPrice`, and its session is left at the initial zero. -/
def replacement (cancelRpt : ExecutionReport) (newPrice : ℤ) (newQty : ℕ) : Order where
  orderId := b.nextOrderId
  clOrdId := cancelRpt.clOrdId
  symbolIdx := b.symbolIdx
  side := if b.bids.contains cancelRpt.lastPrice then .buy else .sell
  ordType := .limit
  tif := .day
  price := newPrice
  quantity := newQty
  remainingQty := newQty
  sessionId := 0
  status := .new
  stopPrice := 0

/-- `modifyOrder` (cancel-replace), with the report it returns. -/
def modifyOrder (orderId : ℕ) (newPrice : ℤ) (newQty : ℕ) :
    Option (Outcome × ExecutionReport) :=
  (b.cancelOrder orderId).map fun c =>
    let replacement := c.book.replacement c.report newPrice newQty
    (⟨{ c.book with nextOrderId := c.book.nextOrderId + 1 }.insertResting replacement,
        [.exit c.removed, .entry replacement]⟩,
      replacement.report .new 0 newQty)

/-! ### Auction -/

/-- `cumBuy` and `cumSell` of `getIOP`: the remaining quantity at the prices taken. -/
def cumQty {s : Side} (levels : Levels s) (takes : ℤ → Bool) : ℕ :=
  levels.entries.foldl (fun acc level => if takes level.1 then sumRemaining level.2 acc else acc) 0

/-- The running best of `getIOP`. -/
structure Candidate where
  price : ℤ
  volume : ℕ
  surplus : ℕ
  buySurplus : Bool
deriving DecidableEq, Repr

/-- One candidate price of the loop in `getIOP`. -/
def iopStep (best : Candidate) (p : ℤ) : Candidate :=
  let cumBuy := cumQty b.bids fun bidPrice => bidPrice ≥ p
  let cumSell := cumQty b.asks fun askPrice => askPrice ≤ p
  let volume := min cumBuy cumSell
  let surplus := if cumBuy > cumSell then cumBuy - cumSell else cumSell - cumBuy
  let buySurplus : Bool := cumBuy > cumSell
  if volume > best.volume ∨ (volume = best.volume ∧ surplus < best.surplus) ∨
      (volume = best.volume ∧ surplus = best.surplus ∧ buySurplus ∧ p > best.price) then
    ⟨p, volume, surplus, buySurplus⟩
  else best

/-- All prices of both sides, sorted, once each. -/
def candidatePrices : List ℤ :=
  ((b.bids.keys ++ b.asks.keys).insertionSort (· ≤ ·)).destutter (· ≠ ·)

/-- The indicative opening price. -/
def getIOP : ℤ :=
  if b.bids.entries.isEmpty || b.asks.entries.isEmpty then 0
  else
    let best := b.candidatePrices.foldl b.iopStep ⟨0, 0, 2 ^ 64 - 1, false⟩
    if best.volume > 0 then best.price else 0

/-- The two inner loops of `uncross`: fill one ask from the bids at or above the auction price,
then erase it if nothing is left. -/
def uncrossAsk (iop : ℤ) (out : Outcome) (ask : Order) : Option (Outcome × Option Order) :=
  match out.book.bids.sweep
      (fun m bidPrice => bidPrice < iop || m.incoming.remainingQty = 0)
      (fun _ => FillLoop.uncross.visit iop) ⟨out, ask⟩ with
  | (m, bids) =>
    let book := { m.book with
      bids := bids
      orderIndex := if m.incoming.remainingQty = 0 then
        m.book.orderIndex.erase m.incoming.orderId else m.book.orderIndex }
    some (⟨book, m.log⟩, if m.incoming.remainingQty = 0 then none else some m.incoming)

/-- `uncross`. The source also tests `remainingVolume > 0`, which never changes. -/
def uncross : Outcome :=
  let iop := b.getIOP
  if iop = 0 then ⟨b, []⟩
  else
    match b.asks.sweep (fun _ askPrice => askPrice > iop) (fun _ => uncrossAsk iop) ⟨b, []⟩ with
    | (out, asks) => { out with book := { out.book with asks := asks } }

end Book

end EuNEx
