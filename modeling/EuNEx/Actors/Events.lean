import EuNEx.Book.Basic

/-!
# Events between actors

The events of `actors/Events.hpp` that pass between the gateway, the matching core and the
subscribers of its reports. The two level arrays of a `BookUpdateEvent`, with their depths, are
lists.
-/

namespace EuNEx

structure NewOrderEvent where
  clOrdId : ℕ
  symbolIdx : ℕ
  side : Side
  ordType : OrderType
  tif : TimeInForce
  price : ℤ
  quantity : ℕ
  sessionId : ℕ
  stopPrice : ℤ := 0
deriving DecidableEq, Repr

structure CancelOrderEvent where
  orderId : ℕ
  origClOrdId : ℕ
  symbolIdx : ℕ
  sessionId : ℕ
deriving DecidableEq, Repr

structure ModifyOrderEvent where
  orderId : ℕ
  origClOrdId : ℕ
  symbolIdx : ℕ
  newPrice : ℤ
  newQuantity : ℕ
  sessionId : ℕ
deriving DecidableEq, Repr

/-- A report, and the session it is for. -/
structure ExecReportEvent extends ExecutionReport where
  sessionId : ℕ
deriving DecidableEq, Repr

structure BookUpdateEvent.Level where
  price : ℤ
  qty : ℕ
deriving DecidableEq, Repr

structure BookUpdateEvent where
  symbolIdx : ℕ
  bids : List BookUpdateEvent.Level
  asks : List BookUpdateEvent.Level
deriving DecidableEq, Repr

/-- The order that `MECoreActor` makes of a new order event. -/
def NewOrderEvent.order (event : NewOrderEvent) : Order where
  orderId := 0
  clOrdId := event.clOrdId
  symbolIdx := event.symbolIdx
  side := event.side
  ordType := event.ordType
  tif := event.tif
  price := event.price
  quantity := event.quantity
  remainingQty := 0
  sessionId := event.sessionId
  status := .new
  stopPrice := event.stopPrice

end EuNEx
