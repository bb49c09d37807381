import EuNEx.Actors.MECore

/-!
# The order entry gateway

`actors/OEGActor.cpp`: requests go on to the matching core of their symbol, execution reports are
kept and go on to the subscribers.
-/

namespace EuNEx

/-- The actors that `main` subscribes to execution reports. -/
inductive Subscriber where
  | fixAcceptor
  | aiTrader
deriving DecidableEq, Repr

structure OEGActor where
  execReportSubscribers : List Subscriber := []
  reports : List ExecReportEvent := []

namespace OEGActor

/-! ### The events that go to a matching core -/

def submitNewOrder (clOrdId symbolIdx : ℕ) (side : Side) (ordType : OrderType) (tif : TimeInForce)
    (price : ℤ) (qty session : ℕ) : MECoreEvent :=
  .newOrder
    { clOrdId := clOrdId
      symbolIdx := symbolIdx
      side := side
      ordType := ordType
      tif := tif
      price := price
      quantity := qty
      sessionId := session }

def submitCancel (orderId origClOrdId symbolIdx session : ℕ) : MECoreEvent :=
  .cancelOrder ⟨orderId, origClOrdId, symbolIdx, session⟩

def submitModify (orderId origClOrdId symbolIdx : ℕ) (newPrice : ℤ) (newQty session : ℕ) :
    MECoreEvent :=
  .modifyOrder ⟨orderId, origClOrdId, symbolIdx, newPrice, newQty, session⟩

/-- `onEvent` of the three requests. -/
def forward : MECoreEvent → MECoreEvent
  | .newOrder event => submitNewOrder event.clOrdId event.symbolIdx event.side event.ordType
      event.tif event.price event.quantity event.sessionId
  | .cancelOrder event => submitCancel event.orderId event.origClOrdId event.symbolIdx
      event.sessionId
  | .modifyOrder event => submitModify event.orderId event.origClOrdId event.symbolIdx
      event.newPrice event.newQuantity event.sessionId

end OEGActor

/-- The symbol that a request is about. -/
def MECoreEvent.symbolIdx : MECoreEvent → ℕ
  | .newOrder event => event.symbolIdx
  | .cancelOrder event => event.symbolIdx
  | .modifyOrder event => event.symbolIdx

end EuNEx
