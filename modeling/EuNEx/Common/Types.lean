import Mathlib.Algebra.GroupWithZero.Nat
import Mathlib.Data.Int.Notation
import Mathlib.Data.Nat.Notation
import Mathlib.Tactic.Common

/-!
# Types of the matching engine

The data of `common/Types.hpp`. Prices (`Price_t`, fixed-point) are integers. Ids are natural
numbers, and the counters behind them are taken unbounded. Quantities (`Quantity_t`) are natural
numbers; where the code forms a sum of quantities, it is reduced modulo `2 ^ 64` (`addQty`). The
timestamps `entryTime` and `matchTime` are written but never read, and are left out.
-/

namespace EuNEx

/-- Addition in `Quantity_t`, an unsigned 64-bit integer. -/
def addQty (a b : ℕ) : ℕ := (a + b) % 2 ^ 64

inductive Side where
  | buy
  | sell
deriving DecidableEq, Repr

inductive OrderType where
  | market
  | limit
  | stopMarket
  | stopLimit
deriving DecidableEq, Repr

inductive TimeInForce where
  | day
  | gtc
  | ioc
  | fok
deriving DecidableEq, Repr

inductive OrderStatus where
  | new
  | partiallyFilled
  | filled
  | cancelled
  | rejected
deriving DecidableEq, Repr

inductive TradingPhase where
  | preOpen
  | opening
  | cts
  | closed
deriving DecidableEq, Repr

structure Order where
  orderId : ℕ
  clOrdId : ℕ
  symbolIdx : ℕ
  side : Side
  ordType : OrderType
  tif : TimeInForce
  price : ℤ
  quantity : ℕ
  remainingQty : ℕ
  sessionId : ℕ
  status : OrderStatus
  stopPrice : ℤ
deriving DecidableEq, Repr

structure Trade where
  tradeId : ℕ
  symbolIdx : ℕ
  price : ℤ
  quantity : ℕ
  buyOrderId : ℕ
  sellOrderId : ℕ
  buyClOrdId : ℕ
  sellClOrdId : ℕ
  buySessionId : ℕ
  sellSessionId : ℕ
deriving DecidableEq, Repr

structure ExecutionReport where
  orderId : ℕ
  clOrdId : ℕ
  status : OrderStatus
  filledQty : ℕ
  remainingQty : ℕ
  lastPrice : ℤ
  lastQty : ℕ
  tradeId : ℕ
deriving DecidableEq, Repr

/-- The other side of the market. -/
def Side.opposite : Side → Side
  | .buy => .sell
  | .sell => .buy

@[simp] lemma Side.opposite_buy : Side.buy.opposite = .sell := rfl

@[simp] lemma Side.opposite_sell : Side.sell.opposite = .buy := rfl

@[simp] lemma Side.opposite_opposite (s : Side) : s.opposite.opposite = s := by cases s <;> rfl

lemma Side.ne_opposite (s : Side) : s ≠ s.opposite := by cases s <;> simp

/-- Price priority, the comparator of the level map of a side: `std::greater` for the bids,
`std::less` for the asks. -/
def Side.before : Side → ℤ → ℤ → Prop
  | .buy, p, q => p > q
  | .sell, p, q => p < q

/-- The two order types that wait for a trigger. -/
def OrderType.isStop : OrderType → Bool
  | .stopMarket | .stopLimit => true
  | .market | .limit => false

/-- A status after which the engine is done with the order. -/
def OrderStatus.isFinal : OrderStatus → Bool
  | .filled | .cancelled | .rejected => true
  | .new | .partiallyFilled => false

end EuNEx
