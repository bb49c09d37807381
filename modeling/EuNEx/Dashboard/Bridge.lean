import EuNEx.Dashboard.Requests

/-!
# The bridge to the C++ engine

`CppEngineBridge` of `dashboard/app.py`, and the switch between the engines. The two engines share
the list of orders, the trades and the next id. A method of the bridge is one step; what it sends is
another matter, and a send that fails is a connection that is lost after it. A row of the database
holds integers of 64 bits: with a longer one, `save_order` and `save_trade` raise an exception,
which ends `_recv_loop`. (In a request they come last, but for a broadcast.)
-/

namespace EuNEx.Dashboard

variable {P : Type*}

/-- What `_handle_exec_report` reads of a message. -/
structure ExecReport (P : Type*) where
  clOrdId : List Char
  execType : List Char
  ordStatus : List Char
  lastPx : P
  lastQty : ℤ
  leavesQty : ℤ
deriving DecidableEq, Repr

/-- The global variables of the dashboard and those of the bridge: whether `engine_mode` is `cpp`,
`_connected`, and `_pending`, where the id stands for the order. -/
structure App (P : Type*) extends MatchingEngine P where
  cpp : Bool := false
  connected : Bool := false
  pending : List Char → Option ℕ := fun _ => none

namespace ExecReport

variable (r : ExecReport P)

/-- The status that a report gives to an order. -/
def status (old : OrderStatus) : OrderStatus :=
  if r.execType = "F".toList ∨ r.ordStatus = "2".toList then
    if r.leavesQty = 0 then .filled else .partiallyFilled
  else if r.execType = "0".toList ∨ r.ordStatus = "0".toList then .new
  else if r.execType = "4".toList ∨ r.ordStatus = "4".toList then .cancelled
  else if r.execType = "8".toList ∨ r.ordStatus = "8".toList then .rejected
  else old

/-- The change that a report makes. -/
def change (o : Order P) : Order P :=
  { o with remainingQty := r.leavesQty, status := r.status o.status }

def applied (orderId : ℕ) (o : Order P) : Option (Order P) :=
  if o.orderId = orderId then some (r.change o) else none

/-- The trade that a report of a fill makes: the other side is not known. -/
def trade (tradeId : ℕ) (o : Order P) : Trade P where
  tradeId := tradeId
  symbolIdx := o.symbolIdx
  price := r.lastPx
  quantity := r.lastQty
  buyOrderId := if o.side = .buy then o.orderId else 0
  sellOrderId := if o.side = .sell then o.orderId else 0

end ExecReport

namespace CppEngineBridge

open MatchingEngine (cancelled amended)

variable (a : App P)

/-- `submit_order`, with the order it returns. -/
def submitOrder (symbolIdx : ℕ) (r : Submission P) : App P × Order P :=
  let orderId := a.nextOrderId
  let clOrdId := if r.clOrdId = [] then CString.toString orderId else r.clOrdId
  let order : Order P := { r.order symbolIdx orderId with
    clOrdId := clOrdId
    status := if a.connected then .new else .rejected }
  ({ a with
      nextOrderId := orderId + 1
      pending := if a.connected then Function.update a.pending clOrdId (some orderId)
        else a.pending
      orders := a.orders ++ [order]
      events := a.events ++ [.order order] }, order)

/-- `cancel_order`, with the order it returns. The books are left alone. -/
def cancelOrder (orderId : ℕ) : Option (App P × Order P) :=
  (a.orders.findSome? (cancelled orderId)).map fun o =>
    ({ a with toMatchingEngine := a.writeBack (cancelled orderId) }, o)

/-- `amend_order`, with the order it returns. The books are left alone. -/
def amendOrder (orderId : ℕ) (newPrice : Option P) (newQuantity : Option ℤ) :
    Option (App P × Order P) :=
  (a.orders.findSome? (amended orderId newPrice newQuantity)).map fun o =>
    ({ a with toMatchingEngine := a.writeBack (amended orderId newPrice newQuantity) }, o)

/-- The end of `_handle_exec_report`, with the order as it was before. -/
def recordFill [Zero P] (symbols : List ℕ) (r : ExecReport P) (o : Order P) : App P :=
  let trade := r.trade (a.trades.length + 1) o
  let traded : App P := { a with
    trades := a.trades ++ [trade]
    events := a.events ++ [.trade trade] }
  if ¬trade.Storable then { a with trades := a.trades ++ [trade], connected := false }
  else if o.symbolIdx = 0 then traded
  else if o.symbolIdx ∈ symbols then
    let engine := traded.updateSnapshot o.symbolIdx
    { traded with
      snapshots := engine.snapshots
      events := engine.events ++ [.snapshot (engine.snapshots o.symbolIdx)] }
  -- `_update_snapshot` raises an exception, which ends `_recv_loop`
  else { traded with connected := false }

/-- `_handle_exec_report`. -/
def handleExecReport [Zero P] (symbols : List ℕ) (r : ExecReport P) : App P :=
  match a.pending r.clOrdId with
  | none => a
  | some orderId =>
    let written : App P := { a with toMatchingEngine := a.writeBack (r.applied orderId) }
    match a.orders.find? fun o => o.orderId = orderId with
    | none => written
    | some o =>
      if ¬(r.change o).Storable then
        { a with orders := a.orders.replaceF (r.applied orderId), connected := false }
      else if r.execType = "F".toList ∧ 0 < r.lastQty then recordFill written symbols r o
      else written

section

variable {a}

/-- A report of a fill leaves these as they are. -/
lemma recordFill_frame [Zero P] (symbols : List ℕ) (r : ExecReport P) (o : Order P) :
    (recordFill a symbols r o).orders = a.orders ∧ (recordFill a symbols r o).books = a.books ∧
      (recordFill a symbols r o).nextOrderId = a.nextOrderId ∧
      (recordFill a symbols r o).pending = a.pending := by
  rw [recordFill]
  simp only
  split
  · exact ⟨rfl, rfl, rfl, rfl⟩
  · split
    · exact ⟨rfl, rfl, rfl, rfl⟩
    · split <;> exact ⟨rfl, rfl, rfl, rfl⟩

/-- A report changes its order, and no book. -/
lemma handleExecReport_frame [Zero P] (symbols : List ℕ) {r : ExecReport P} {orderId : ℕ}
    (h : a.pending r.clOrdId = some orderId) :
    (handleExecReport a symbols r).orders = (a.writeBack (r.applied orderId)).orders ∧
      (handleExecReport a symbols r).books = a.books ∧
      (handleExecReport a symbols r).nextOrderId = a.nextOrderId ∧
      (handleExecReport a symbols r).pending = a.pending := by
  simp only [handleExecReport, h]
  split
  · exact ⟨rfl, rfl, rfl, rfl⟩
  · split
    · exact ⟨rfl, rfl, rfl, rfl⟩
    · split
      · exact recordFill_frame symbols r _
      · exact ⟨rfl, rfl, rfl, rfl⟩

lemma handleExecReport_of_none [Zero P] (symbols : List ℕ) {r : ExecReport P}
    (h : a.pending r.clOrdId = none) : handleExecReport a symbols r = a := by
  simp only [handleExecReport, h]

end

/-- The request that a route passes on. -/
def handle : Request P → App P × Option (Order P)
  | .submit symbolIdx r => Prod.map id some (submitOrder a symbolIdx r)
  | .cancel orderId => ((cancelOrder a orderId).map (Prod.map id some)).getD (a, none)
  | .amend orderId newPrice newQuantity =>
    ((amendOrder a orderId newPrice newQuantity).map (Prod.map id some)).getD (a, none)

/-- Reports are awaited on the same orders as before, and on a new one. -/
lemma pending_handle {a : App P} {request : Request P} {clOrdId : List Char} {orderId : ℕ}
    (h : (handle a request).1.pending clOrdId = some orderId) :
    a.pending clOrdId = some orderId ∨
      orderId = a.nextOrderId ∧ ∃ symbolIdx r, request = .submit symbolIdx r := by
  cases request with
  | submit symbolIdx r =>
    simp only [handle, submitOrder, Prod.map_fst, id_eq] at h
    split at h
    · rw [Function.update_apply] at h
      by_cases hkey : clOrdId = if r.clOrdId = [] then CString.toString a.nextOrderId else r.clOrdId
      · rw [if_pos hkey] at h
        exact .inr ⟨(Option.some.inj h).symm, symbolIdx, r, rfl⟩
      · rw [if_neg hkey] at h
        exact .inl h
    · exact .inl h
  | cancel id =>
    rw [handle] at h
    cases hr : cancelOrder a id with
    | none =>
      rw [hr] at h
      exact .inl h
    | some r =>
      obtain ⟨o, -, rfl⟩ := Option.map_eq_some_iff.mp hr
      rw [hr] at h
      exact .inl h
  | amend id newPrice newQuantity =>
    rw [handle] at h
    cases hr : amendOrder a id newPrice newQuantity with
    | none =>
      rw [hr] at h
      exact .inl h
    | some r =>
      obtain ⟨o, -, rfl⟩ := Option.map_eq_some_iff.mp hr
      rw [hr] at h
      exact .inl h

end CppEngineBridge

/-! ### The Python engine with orders of the bridge in its list -/

namespace MatchingEngine

variable [LinearOrder P] [Zero P] (symbols : List ℕ) (m : MatchingEngine P)

/-- The order that a cancel or an amend is for. -/
def target : Request P → Option (Order P)
  | .submit _ _ => none
  | .cancel orderId => m.orders.find? fun o => o.orderId = orderId ∧ o.isOpen = true
  | .amend orderId _ _ => m.orders.find? fun o => o.orderId = orderId ∧ o.isOpen = true

/-- A request, where an order of the bridge may have a symbol that has no book: a cancel has set the
status when the exception is raised, and an amend has done nothing. -/
def handleShared (request : Request P) : MatchingEngine P × Option (Order P) :=
  match m.target request with
  | none => m.handle symbols request
  | some o =>
    if o.symbolIdx ∈ symbols then m.handle symbols request
    else match request with
      | .cancel orderId => ({ m with orders := m.orders.replaceF (cancelled orderId) }, none)
      | _ => (m, none)

section

variable {symbols m} {request : Request P} {o : Order P} {orderId : ℕ}

lemma handleShared_of_none (h : m.target request = none) :
    m.handleShared symbols request = m.handle symbols request := by
  unfold handleShared
  rw [h]

lemma handleShared_of_known (h : m.target request = some o) (hknown : o.symbolIdx ∈ symbols) :
    m.handleShared symbols request = m.handle symbols request := by
  unfold handleShared
  rw [h]
  exact if_pos hknown

lemma handleShared_cancel (h : m.target (.cancel orderId) = some o)
    (hunknown : o.symbolIdx ∉ symbols) : m.handleShared symbols (.cancel orderId)
      = ({ m with orders := m.orders.replaceF (cancelled orderId) }, none) := by
  unfold handleShared
  rw [h]
  exact if_neg hunknown

lemma handleShared_amend {newPrice : Option P} {newQuantity : Option ℤ}
    (h : m.target (.amend orderId newPrice newQuantity) = some o)
    (hunknown : o.symbolIdx ∉ symbols) :
    m.handleShared symbols (.amend orderId newPrice newQuantity) = (m, none) := by
  unfold handleShared
  rw [h]
  exact if_neg hunknown

end

end MatchingEngine

/-! ### The two engines -/

/-- What happens to the dashboard. Seeding and the simulator go to the Python engine in either mode.
In a switch to C++, the process starts or not, and the bridge connects or not. -/
inductive Input (P : Type*) where
  | request (request : Request P)
  | seed (symbolIdx : ℕ) (r : Submission P)
  | mode (cpp started connects : Bool)
  | report (r : ExecReport P)
  | connectionLost

namespace App

variable [LinearOrder P] [Zero P] (symbols : List ℕ) (a : App P)

/-- A request to the Python engine. -/
def handlePython (request : Request P) : App P × Option (Order P) :=
  let r := a.handleShared symbols request
  ({ a with toMatchingEngine := r.1 }, r.2)

omit [LinearOrder P] [Zero P] in
/-- The route `/engine/mode`. -/
def setMode (cpp started connects : Bool) : App P :=
  if cpp then
    if started ∧ (a.connected ∨ connects) then { a with cpp := true, connected := true } else a
  else { a with cpp := false, connected := false }

omit [LinearOrder P] [Zero P] in
/-- A switch changes the mode and the connection. -/
lemma setMode_eq (cpp started connects : Bool) : a.setMode cpp started connects = { a with
    cpp := (a.setMode cpp started connects).cpp
    connected := (a.setMode cpp started connects).connected } := by
  rw [setMode]
  split
  · split <;> rfl
  · rfl

/-- One step, with the order that a request returns. -/
def next : Input P → App P × Option (Order P)
  | .request request =>
    if a.cpp then CppEngineBridge.handle a request else a.handlePython symbols request
  | .seed symbolIdx r => a.handlePython symbols (.submit symbolIdx r)
  | .mode cpp started connects => (a.setMode cpp started connects, none)
  | .report r => (CppEngineBridge.handleExecReport a symbols r, none)
  | .connectionLost => ({ a with connected := false }, none)

end App

end EuNEx.Dashboard
