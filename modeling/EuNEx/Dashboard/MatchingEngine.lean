import EuNEx.Common.Types
import EuNEx.Lib.CString
import EuNEx.Lib.Sorted
import EuNEx.Lib.Sweep
import Mathlib.Algebra.Order.Ring.Int
import Mathlib.Logic.Function.Basic
import Mathlib.Order.Defs.LinearOrder

/-!
# The matching engine of the dashboard

`MatchingEngine` of `dashboard/app.py`. Prices are of any linearly ordered type with a zero, and
quantities are integers. The methods are those of a symbol that has a book. An order is written to
the database and broadcast at the same places, and so is a trade: both become an event. The keys of
the dictionaries that these methods do not read are left out, and so are the names in a snapshot.
-/

namespace EuNEx.Dashboard

structure Order (P : Type*) where
  orderId : ℕ
  clOrdId : List Char
  symbolIdx : ℕ
  side : Side
  orderType : OrderType
  price : P
  quantity : ℤ
  remainingQty : ℤ
  status : OrderStatus
  tif : TimeInForce
deriving DecidableEq, Repr

/-- A resting order, as a side of a book has it. -/
structure Entry (P : Type*) where
  orderId : ℕ
  price : P
  remainingQty : ℤ
  side : Side
deriving DecidableEq, Repr

structure Trade (P : Type*) where
  tradeId : ℕ
  symbolIdx : ℕ
  price : P
  quantity : ℤ
  buyOrderId : ℕ
  sellOrderId : ℕ
deriving DecidableEq, Repr

/-- What `_update_snapshot` makes of the state of a symbol. A level is a price with a quantity. -/
structure Snapshot (P : Type*) where
  symbolIdx : ℕ
  bestBid : P
  bestAsk : P
  bidDepth : ℕ
  askDepth : ℕ
  lastPrice : P
  lastQty : ℤ
  tradeCount : ℕ
  volume : ℤ
  bids : List (P × ℤ)
  asks : List (P × ℤ)
deriving DecidableEq, Repr

/-- What is saved and broadcast. -/
inductive Event (P : Type*) where
  | order (order : Order P)
  | trade (trade : Trade P)
  | snapshot (snapshot : Option (Snapshot P))
deriving DecidableEq, Repr

/-- `self.books[sym]`. -/
structure Book (P : Type*) where
  bids : List (Entry P) := []
  asks : List (Entry P) := []
deriving DecidableEq, Repr

/-- `self.books`, the global variables `orders`, `trades`, `snapshots` and `next_order_id`, and the
events. -/
structure MatchingEngine (P : Type*) where
  books : ℕ → Book P := fun _ => {}
  orders : List (Order P) := []
  trades : List (Trade P) := []
  snapshots : ℕ → Option (Snapshot P) := fun _ => none
  nextOrderId : ℕ := 1000
  events : List (Event P) := []

variable {P : Type*}

namespace Book

variable (book : Book P)

/-- `book["bids"]` or `book["asks"]`. -/
def entries : Side → List (Entry P)
  | .buy => book.bids
  | .sell => book.asks

def setEntries : Side → List (Entry P) → Book P
  | .buy, entries => { book with bids := entries }
  | .sell, entries => { book with asks := entries }

variable {book} {s : Side} {l : List (Entry P)}

@[simp] lemma entries_setEntries : (book.setEntries s l).entries s = l := by cases s <;> rfl

lemma entries_setEntries_of_ne {t : Side} (h : t ≠ s) :
    (book.setEntries s l).entries t = book.entries t := by
  cases s <;> cases t <;> first | rfl | exact absurd rfl h

end Book

namespace Order

variable (o : Order P)

/-- The status is `New` or `PartiallyFilled`. -/
def isOpen : Bool := o.status = .new || o.status = .partiallyFilled

/-- The entry that `_insert_resting` makes. -/
def entry : Entry P := ⟨o.orderId, o.price, o.remainingQty, o.side⟩

/-- The order as `amend_order` leaves it. -/
def amend (newPrice : Option P) (newQuantity : Option ℤ) : Order P :=
  { o with
    price := newPrice.getD o.price
    quantity := newQuantity.getD o.quantity
    remainingQty := newQuantity.getD o.remainingQty }

end Order

/-- The integers of SQLite. -/
def FitsColumn (n : ℤ) : Prop := -2 ^ 63 ≤ n ∧ n < 2 ^ 63

instance (n : ℤ) : Decidable (FitsColumn n) := inferInstanceAs (Decidable (_ ∧ _))

/-- The integers that `save_order` passes on. -/
def Order.Storable (order : Order P) : Prop :=
  FitsColumn order.orderId ∧ FitsColumn order.symbolIdx ∧ FitsColumn order.quantity ∧
    FitsColumn order.remainingQty

instance (order : Order P) : Decidable order.Storable := inferInstanceAs (Decidable (_ ∧ _))

/-- The integers that `save_trade` passes on. -/
def Trade.Storable (trade : Trade P) : Prop :=
  FitsColumn trade.tradeId ∧ FitsColumn trade.symbolIdx ∧ FitsColumn trade.quantity ∧
    FitsColumn trade.buyOrderId ∧ FitsColumn trade.sellOrderId

instance (trade : Trade P) : Decidable trade.Storable := inferInstanceAs (Decidable (_ ∧ _))

section

variable [LinearOrder P]

/-- The order of the sort keys: `-price` for bids, `price` for asks. -/
def KeyLe : Side → P → P → Prop
  | .buy, p, q => q ≤ p
  | .sell, p, q => p ≤ q

instance : (s : Side) → DecidableRel (KeyLe (P := P) s)
  | .buy => fun p q => inferInstanceAs (Decidable (q ≤ p))
  | .sell => fun p q => inferInstanceAs (Decidable (p ≤ q))

lemma KeyLe.trans {s : Side} {p q r : P} (h : KeyLe s p q) (h' : KeyLe s q r) : KeyLe s p r := by
  cases s with
  | buy => exact (show r ≤ q from h').trans h
  | sell => exact (show p ≤ q from h).trans h'

lemma KeyLe.total (s : Side) (p q : P) : KeyLe s p q ∨ KeyLe s q p := by
  cases s with
  | buy => exact le_total q p
  | sell => exact le_total p q

/-- The order in which the entries of a side are sorted. -/
def Entry.Le (s : Side) (a b : Entry P) : Prop := KeyLe s a.price b.price

instance (s : Side) : DecidableRel (Entry.Le (P := P) s) := fun a b =>
  inferInstanceAs (Decidable (KeyLe s a.price b.price))

instance (s : Side) : IsTrans (Entry P) (Entry.Le s) := ⟨fun _ _ _ => KeyLe.trans⟩

instance (s : Side) : Std.Total (Entry.Le (P := P) s) := ⟨fun _ _ => KeyLe.total s _ _⟩

end

namespace MatchingEngine

variable (m : MatchingEngine P)

/-- The side list of a symbol. -/
def entries (symbolIdx : ℕ) (s : Side) : List (Entry P) := (m.books symbolIdx).entries s

def setEntries (symbolIdx : ℕ) (s : Side) (l : List (Entry P)) : MatchingEngine P :=
  { m with books :=
      Function.update m.books symbolIdx ((m.books symbolIdx).setEntries s l) }

section

variable {m} {symbolIdx : ℕ} {s : Side} {l : List (Entry P)}

@[simp] lemma orders_setEntries : (m.setEntries symbolIdx s l).orders = m.orders := rfl

@[simp] lemma trades_setEntries : (m.setEntries symbolIdx s l).trades = m.trades := rfl

@[simp] lemma nextOrderId_setEntries :
    (m.setEntries symbolIdx s l).nextOrderId = m.nextOrderId := rfl

@[simp] lemma events_setEntries : (m.setEntries symbolIdx s l).events = m.events := rfl

@[simp] lemma snapshots_setEntries : (m.setEntries symbolIdx s l).snapshots = m.snapshots := rfl

@[simp] lemma entries_setEntries : (m.setEntries symbolIdx s l).entries symbolIdx s = l := by
  simp [entries, setEntries]

lemma entries_setEntries_of_ne {symbolIdx' : ℕ} {t : Side} (h : symbolIdx' ≠ symbolIdx ∨ t ≠ s) :
    (m.setEntries symbolIdx s l).entries symbolIdx' t = m.entries symbolIdx' t := by
  rcases eq_or_ne symbolIdx' symbolIdx with rfl | hne
  · have ht : t ≠ s := h.resolve_left (· rfl)
    simp [entries, setEntries, Book.entries_setEntries_of_ne ht]
  · simp [entries, setEntries, Function.update_of_ne hne]

/-- Nothing changes if the side is written back. -/
lemma setEntries_entries : m.setEntries symbolIdx s (m.entries symbolIdx s) = m := by
  have hbook : (m.books symbolIdx).setEntries s (m.entries symbolIdx s) = m.books symbolIdx := by
    cases s <;> rfl
  rw [setEntries, hbook, Function.update_eq_self]

end

/-- `for o in orders:` where the first order that `change` takes is changed, saved and broadcast
before the loop ends. -/
def writeBack (change : Order P → Option (Order P)) : MatchingEngine P :=
  { m with
    orders := m.orders.replaceF change
    events := m.events ++ (m.orders.findSome? change).toList.map .order }

/-- `_insert_resting`: the sort is stable. -/
def insertResting [LinearOrder P] (order : Order P) : MatchingEngine P :=
  m.setEntries order.symbolIdx order.side
    ((m.entries order.symbolIdx order.side ++ [order.entry]).insertionSort (Entry.Le order.side))

/-- `_remove_from_book`. -/
def removeFromBook (order : Order P) : MatchingEngine P :=
  m.setEntries order.symbolIdx order.side
    ((m.entries order.symbolIdx order.side).eraseP fun entry => entry.orderId = order.orderId)

/-- The dictionary that `_update_snapshot` builds. -/
def snapshot [Zero P] (symbolIdx : ℕ) : Snapshot P :=
  let book := m.books symbolIdx
  let symTrades := m.trades.filter fun t => t.symbolIdx = symbolIdx
  { symbolIdx := symbolIdx
    bestBid := (book.bids.head?.map Entry.price).getD 0
    bestAsk := (book.asks.head?.map Entry.price).getD 0
    bidDepth := book.bids.length
    askDepth := book.asks.length
    lastPrice := (symTrades.getLast?.map Trade.price).getD 0
    lastQty := (symTrades.getLast?.map Trade.quantity).getD 0
    tradeCount := symTrades.length
    volume := (symTrades.map Trade.quantity).sum
    bids := (book.bids.take 10).map fun b => (b.price, b.remainingQty)
    asks := (book.asks.take 10).map fun a => (a.price, a.remainingQty) }

/-- `_update_snapshot`. -/
def updateSnapshot [Zero P] (symbolIdx : ℕ) : MatchingEngine P :=
  { m with snapshots := Function.update m.snapshots symbolIdx (some (m.snapshot symbolIdx)) }

section

variable {m} [Zero P] {symbolIdx symbolIdx' : ℕ} {s : Side}

@[simp] lemma orders_updateSnapshot : (m.updateSnapshot symbolIdx).orders = m.orders := rfl

@[simp] lemma trades_updateSnapshot : (m.updateSnapshot symbolIdx).trades = m.trades := rfl

@[simp] lemma events_updateSnapshot : (m.updateSnapshot symbolIdx).events = m.events := rfl

@[simp] lemma nextOrderId_updateSnapshot :
    (m.updateSnapshot symbolIdx).nextOrderId = m.nextOrderId := rfl

@[simp] lemma entries_updateSnapshot :
    (m.updateSnapshot symbolIdx).entries symbolIdx' s = m.entries symbolIdx' s := rfl

end

end MatchingEngine

/-! ### Matching -/

/-- The loop variables of `_match`. -/
structure Match (P : Type*) extends MatchingEngine P where
  incoming : Order P
  matched : List (Trade P)

/-- `price_ok`, which the fill-or-kill check tests as well. -/
def Order.priceOk [LinearOrder P] (incoming : Order P) (price : P) : Bool :=
  incoming.orderType = .market ||
    match incoming.side with
    | .buy => price ≤ incoming.price
    | .sell => price ≥ incoming.price

/-- The change that a fill makes to the order behind the entry. -/
def Entry.filled (resting : Entry P) (o : Order P) : Option (Order P) :=
  if o.orderId = resting.orderId then
    some { o with
      status := if resting.remainingQty = 0 then .filled else .partiallyFilled
      remainingQty := resting.remainingQty }
  else none

section

variable (m : Match P) (resting : Entry P)

/-- What a fill leaves of an entry. -/
def Match.left : Entry P :=
  { resting with
    remainingQty := resting.remainingQty - min m.incoming.remainingQty resting.remainingQty }

/-- What a fill leaves of the order in hand. -/
def Match.reduced : Order P :=
  let remainingQty := m.incoming.remainingQty - min m.incoming.remainingQty resting.remainingQty
  { m.incoming with
    remainingQty := remainingQty
    status := if 0 < remainingQty then .partiallyFilled else .filled }

/-- The trade of a fill. -/
def Match.trade : Trade P where
  tradeId := m.trades.length + 1
  symbolIdx := m.incoming.symbolIdx
  price := resting.price
  quantity := min m.incoming.remainingQty resting.remainingQty
  buyOrderId := if m.incoming.side = .buy then m.incoming.orderId else resting.orderId
  sellOrderId := if m.incoming.side = .buy then resting.orderId else m.incoming.orderId

/-- What the loop body does once the price is right, with what is left of the entry. -/
def Match.fill : Match P × Option (Entry P) :=
  let left := m.left resting
  let engine := m.toMatchingEngine.writeBack left.filled
  let trade := m.trade resting
  (⟨{ engine with trades := engine.trades ++ [trade] }, m.reduced resting, m.matched ++ [trade]⟩,
    if left.remainingQty = 0 then none else some left)

end

/-- One turn of the `while` loop. -/
def Match.visit [LinearOrder P] (m : Match P) (resting : Entry P) :
    Option (Match P × Option (Entry P)) :=
  if m.incoming.remainingQty ≤ 0 ∨ m.incoming.priceOk resting.price = false then none
  else some (m.fill resting)

namespace MatchingEngine

variable [LinearOrder P] (m : MatchingEngine P)

/-- The sum of the fill-or-kill check. -/
def available (incoming : Order P) : ℤ :=
  (((m.entries incoming.symbolIdx incoming.side.opposite).filter fun level =>
    incoming.priceOk level.price).map Entry.remainingQty).sum

/-- The `while` loop of `_match`. -/
def sweepOpposite (incoming : Order P) : Match P :=
  let r := Sweep.sweep Match.visit ⟨m, incoming, []⟩
    (m.entries incoming.symbolIdx incoming.side.opposite)
  { r.1 with
    toMatchingEngine := r.1.setEntries incoming.symbolIdx incoming.side.opposite r.2 }

/-- `_match`. -/
def matchIncoming (incoming : Order P) : Match P :=
  if incoming.tif = .fok ∧ m.available incoming < incoming.quantity then
    ⟨m, { incoming with status := .rejected }, []⟩
  else m.sweepOpposite incoming

end MatchingEngine

/-- What `submit_order` does with the order after `_match`. -/
def Match.settle [LinearOrder P] (m : Match P) : Match P :=
  let order := m.incoming
  if 0 < order.remainingQty ∧ order.status ≠ .cancelled ∧ order.status ≠ .rejected then
    if order.orderType = .market ∨ order.tif = .ioc then
      { m with incoming := { order with status := .cancelled } }
    else if order.tif = .fok then { m with incoming := { order with status := .rejected } }
    else { m with toMatchingEngine :=
      { m.toMatchingEngine with orders := m.orders ++ [order] }.insertResting order }
  else if order.remainingQty = 0 then { m with incoming := { order with status := .filled } }
  else m

/-! ### Requests -/

/-- The arguments of `submit_order`. -/
structure Submission (P : Type*) where
  side : Side
  orderType : OrderType
  price : P
  quantity : ℤ
  tif : TimeInForce
  clOrdId : List Char := []
deriving DecidableEq, Repr

/-- The dictionary that `submit_order` builds. -/
def Submission.order (r : Submission P) (symbolIdx orderId : ℕ) : Order P where
  orderId := orderId
  clOrdId := if r.clOrdId = [] then "D-".toList ++ CString.toString orderId else r.clOrdId
  symbolIdx := symbolIdx
  side := r.side
  orderType := r.orderType
  price := r.price
  quantity := r.quantity
  remainingQty := r.quantity
  status := .new
  tif := r.tif

/-- The last events of `submit_order`. -/
def Match.published (m : Match P) (snap : Option (Snapshot P)) : List (Event P) :=
  .order m.incoming :: (m.matched.map .trade ++ [.snapshot snap])

/-- What `submit_order` does with the order at last, and what it returns. -/
def Match.publish [Zero P] (m : Match P) (symbolIdx : ℕ) : MatchingEngine P × Order P :=
  let engine := m.updateSnapshot symbolIdx
  ({ engine with events := engine.events ++ m.published (engine.snapshots symbolIdx) }, m.incoming)

namespace MatchingEngine

variable [LinearOrder P] [Zero P] (m : MatchingEngine P)

/-- `submit_order`, with the order it returns. -/
def submitOrder (symbolIdx : ℕ) (r : Submission P) : MatchingEngine P × Order P :=
  ({ m with nextOrderId := m.nextOrderId + 1 }.matchIncoming
    (r.order symbolIdx m.nextOrderId)).settle.publish symbolIdx

/-- The test of the loops of `cancel_order` and `amend_order`, with what they do to the order. -/
def changeOpen (orderId : ℕ) (change : Order P → Order P) (o : Order P) : Option (Order P) :=
  if o.orderId = orderId ∧ o.isOpen then some (change o) else none

/-- The change that a cancel makes. -/
def cancelled (orderId : ℕ) : Order P → Option (Order P) :=
  changeOpen orderId fun o => { o with status := .cancelled }

/-- `cancel_order`, with the order it returns. -/
def cancelOrder (orderId : ℕ) : Option (MatchingEngine P × Order P) :=
  (m.orders.findSome? (cancelled orderId)).map fun o =>
    (((m.writeBack (cancelled orderId)).removeFromBook o).updateSnapshot o.symbolIdx, o)

/-- The change that an amend makes. -/
def amended (orderId : ℕ) (newPrice : Option P) (newQuantity : Option ℤ) :
    Order P → Option (Order P) :=
  changeOpen orderId fun o => o.amend newPrice newQuantity

/-- `amend_order`, with the order it returns. -/
def amendOrder (orderId : ℕ) (newPrice : Option P) (newQuantity : Option ℤ) :
    Option (MatchingEngine P × Order P) :=
  (m.orders.findSome? (amended orderId newPrice newQuantity)).map fun o =>
    ((((m.writeBack (amended orderId newPrice newQuantity)).removeFromBook o).insertResting
      o).updateSnapshot o.symbolIdx, o)

end MatchingEngine

end EuNEx.Dashboard
