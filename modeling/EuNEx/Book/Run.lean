import EuNEx.Book.Basic
import EuNEx.Lib.Machine

/-!
# Runs of the book

The public operations of a `Book` as inputs of a machine. The events of a step are the callbacks
it makes and the report it returns, in order, with the history events.
-/

namespace EuNEx

inductive BookOp where
  | newOrder (order : Order)
  | cancelOrder (orderId : ℕ)
  | cancelStopOrder (orderId : ℕ)
  | modifyOrder (orderId : ℕ) (newPrice : ℤ) (newQty : ℕ)
  | uncross
  | triggerStopOrders (tradePrice : ℤ)
  | setPhase (phase : TradingPhase)
deriving DecidableEq, Repr

/-- The operation that replaces an order. -/
def BookOp.isModify : BookOp → Bool
  | .modifyOrder _ _ _ => true
  | _ => false

/-- The operations that take one order off the book. -/
def BookOp.withdraws : BookOp → Bool
  | .cancelOrder _ | .cancelStopOrder _ | .modifyOrder _ _ _ => true
  | .newOrder _ | .uncross | .triggerStopOrders _ | .setPhase _ => false

/-- The operations of continuous trading that do not replace an order. -/
def BookOp.isContinuous : BookOp → Bool
  | .newOrder _ | .cancelOrder _ | .cancelStopOrder _ | .triggerStopOrders _ => true
  | .modifyOrder _ _ _ | .uncross | .setPhase _ => false

namespace Book

/-- `Book(symbolIdx)`. -/
def new (symbolIdx : ℕ) : Book := { symbolIdx := symbolIdx }

/-- A successful cancel as a step: the order leaves, and its report is returned. -/
def Cancel.outcome (c : Cancel) : Outcome := ⟨c.book, [.exit c.removed, .exec c.report]⟩

/-- A successful amendment as a step: the replacement takes the place of the removed order, and its
report is returned. -/
def Cancel.replaced (c : Cancel) (newPrice : ℤ) (newQty : ℕ) : Outcome :=
  let replacement := c.book.replacement c.report newPrice newQty
  ⟨{ c.book with nextOrderId := c.book.nextOrderId + 1 }.insertResting replacement,
    [.exit c.removed, .entry replacement, .exec (replacement.report .new 0 newQty)]⟩

def outcome (b : Book) : BookOp → Outcome
  | .newOrder order => (b.newOrder order).toOutcome
  | .cancelOrder orderId => ((b.cancelOrder orderId).map Cancel.outcome).getD ⟨b, []⟩
  | .cancelStopOrder orderId => ((b.cancelStopOrder orderId).map Cancel.outcome).getD ⟨b, []⟩
  | .modifyOrder orderId newPrice newQty =>
    match b.modifyOrder orderId newPrice newQty with
    | none => ⟨b, []⟩
    | some (out, report) => { out with log := out.log ++ [.exec report] }
  | .uncross => b.uncross
  | .triggerStopOrders tradePrice => b.triggerStopOrders tradePrice
  | .setPhase phase => ⟨b.setPhase phase, []⟩

section

variable {b : Book} {id : ℕ} {newPrice : ℤ} {newQty : ℕ} {c : Cancel}

lemma outcome_cancelOrder_none (h : b.cancelOrder id = none) :
    b.outcome (.cancelOrder id) = ⟨b, []⟩ := by simp [outcome, h]

lemma outcome_cancelOrder_some (h : b.cancelOrder id = some c) :
    b.outcome (.cancelOrder id) = c.outcome := by simp [outcome, h]

lemma outcome_cancelStopOrder_none (h : b.cancelStopOrder id = none) :
    b.outcome (.cancelStopOrder id) = ⟨b, []⟩ := by simp [outcome, h]

lemma outcome_cancelStopOrder_some (h : b.cancelStopOrder id = some c) :
    b.outcome (.cancelStopOrder id) = c.outcome := by simp [outcome, h]

lemma outcome_modifyOrder_none (h : b.cancelOrder id = none) :
    b.outcome (.modifyOrder id newPrice newQty) = ⟨b, []⟩ := by simp [outcome, modifyOrder, h]

lemma outcome_modifyOrder_some (h : b.cancelOrder id = some c) :
    b.outcome (.modifyOrder id newPrice newQty) = c.replaced newPrice newQty := by
  simp [outcome, modifyOrder, Cancel.replaced, h]

end

def step (b : Book) (op : BookOp) : Book × List BookEvent :=
  ((b.outcome op).book, (b.outcome op).log)

/-- The book after a sequence of operations on an empty book, and all events. -/
abbrev run (symbolIdx : ℕ) (ops : List BookOp) : Book × List BookEvent :=
  Machine.run step (new symbolIdx) ops

/-- A limit order for the day, as a client would send it. -/
def dayLimit (side : Side) (price : ℤ) (quantity sessionId : ℕ) : Order where
  orderId := 0
  clOrdId := 1
  symbolIdx := 1
  side := side
  ordType := .limit
  tif := .day
  price := price
  quantity := quantity
  remainingQty := 0
  sessionId := sessionId
  status := .new
  stopPrice := 0

end Book

end EuNEx
