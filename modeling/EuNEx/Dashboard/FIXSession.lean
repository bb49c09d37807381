import EuNEx.Dashboard.Submitted
import EuNEx.FIX.Text

/-!
# Execution reports of the FIX server

`FIXSession` of `fix_gateway/fix_server.py`: its new orders, cancels and amends go to the engine of
the dashboard, among the requests of others. What it reports it takes from the answer, or from the
answer that it has kept of an earlier one.

A client sends bytes. The messages that are complete are handled one by one, while others may post
requests, and those behind a logout are handled like the rest.

Reports are kept as their fields; the id of a report, and the header, are left out. `sendall` of
what has been encoded succeeds. `float` reads a price.
-/

namespace EuNEx.Dashboard.FIXSession

variable {P : Type*}

/-- A message of `_send_exec_report`, or of `_send_reject`, which gives no order id, no last
quantity and no prices but an average of 0. -/
structure Report (P : Type*) where
  orderId : Option ℕ
  clOrdId : List Char
  execType : Char
  ordStatus : Char
  symbol : List Char
  side : List Char
  orderQty : ℤ
  price : Option P
  lastQty : Option ℤ
  lastPx : Option P
  leavesQty : ℤ
  cumQty : ℤ
  avgPx : P
  text : Option (List Char) := none

/-- What `send` is given. -/
inductive Reply (P : Type*) where
  | report (report : Report P)
  | cancelReject (clOrdId text : List Char)
  | admin (msgType : Char) (text : List Char)

/-- The texts of a reply that are not the session's own. -/
def Reply.texts : Reply P → List Char
  | .report r => r.clOrdId ++ r.symbol ++ r.side
  | .cancelReject clOrdId _ => clOrdId
  | .admin _ text => text

/-- A session, with the `buf` of `handle`. -/
structure State (P : Type*) where
  running : Bool := true
  trackedOrders : Table (List Char) (Order P) := fun _ => none
  targetCompId : List Char := []
  buf : List Char := []

/-- Whether a message with these texts can be encoded: its header has the id of the client. -/
def State.encodes (s : State P) (texts : List Char) : Bool :=
  (s.targetCompId ++ texts).all (·.toNat < 128)

/-- `send`: a reply that cannot be encoded is not sent, and stops the session. -/
def send (answer : (MatchingEngine P × State P) × List (Reply P)) :
    (MatchingEngine P × State P) × List (Reply P) :=
  let encodes := fun reply : Reply P => answer.1.2.encodes reply.texts
  ((answer.1.1, { answer.1.2 with running := answer.1.2.running && answer.2.all encodes }),
    answer.2.filter encodes)

/-- What is kept under an id: an order id of 0 counts as none. -/
def State.tracked (s : State P) (clOrdId : List Char) : Option (Order P) :=
  (s.trackedOrders clOrdId).filter (·.orderId ≠ 0)

/-- What `_handle_new_order` reads. -/
structure NewOrderSingle (P : Type*) where
  clOrdId : List Char
  symbol : List Char
  sideFix : List Char
  qty : ℤ
  price : P
  ordType : List Char
  tifFix : List Char

/-- `convert(fields.get(tag, default))`. -/
def number {α : Type*} (convert : List Char → Option α) (fields : TagMap) (tag : ℤ) (default : α) :
    Option α :=
  ((fields.lookup tag).map convert).getD (some default)

/-- `convert(fields[tag])` if the tag is there. -/
def number? {α : Type*} (convert : List Char → Option α) (fields : TagMap) (tag : ℤ) :
    Option (Option α) :=
  ((fields.lookup tag).map fun val => (convert val).map some).getD (some none)

/-- `tif_map`. -/
def tifMap : List Char → TimeInForce
  | ['1'] => .gtc
  | ['3'] => .ioc
  | ['4'] => .fok
  | _ => .day

/-- `_map_status`. -/
def mapStatus : OrderStatus → Char
  | .new => '0'
  | .partiallyFilled => '1'
  | .filled => '2'
  | .cancelled => '4'
  | .rejected => '8'

/-- A number that cannot be read raises an exception, which is `none`. -/
def NewOrderSingle.read [Zero P] (float : List Char → Option P) (fields : TagMap) :
    Option (NewOrderSingle P) :=
  (number PyString.int fields 38 0).bind fun qty =>
    (number float fields 44 0).map fun price =>
      { clOrdId := getTag fields 11 []
        symbol := getTag fields 55 []
        sideFix := getTag fields 54 ['1']
        qty := qty
        price := price
        ordType := getTag fields 40 ['2']
        tifFix := getTag fields 59 ['0'] }

/-- The order that is posted. -/
def NewOrderSingle.submission (o : NewOrderSingle P) : Submission P where
  side := if o.sideFix = ['1'] then .buy else .sell
  orderType := if o.ordType = ['1'] then .market else .limit
  price := o.price
  quantity := o.qty
  tif := tifMap o.tifFix
  clOrdId := o.clOrdId

section

variable [Zero P]

/-- `_send_reject`. -/
def sendReject (o : NewOrderSingle P) (reason : List Char) : Reply P :=
  .report
    { orderId := none
      clOrdId := o.clOrdId
      execType := '8'
      ordStatus := '8'
      symbol := o.symbol
      side := o.sideFix
      orderQty := o.qty
      price := none
      lastQty := none
      lastPx := none
      leavesQty := o.qty
      cumQty := 0
      avgPx := 0
      text := some reason }

/-- The first report on a new order. -/
def newReport (o : NewOrderSingle P) (result : Order P) : Report P where
  orderId := some result.orderId
  clOrdId := o.clOrdId
  execType := '0'
  ordStatus := mapStatus result.status
  symbol := o.symbol
  side := o.sideFix
  orderQty := o.qty
  price := some o.price
  lastQty := some 0
  lastPx := some 0
  leavesQty := result.remainingQty
  cumQty := o.qty - result.remainingQty
  avgPx := o.price

/-- The second one, if the status tells of a fill. -/
def fillReport (o : NewOrderSingle P) (result : Order P) : Report P :=
  { newReport o result with
    execType := 'F'
    lastQty := some (o.qty - result.remainingQty)
    lastPx := some o.price }

/-- The reports on an order that has been taken. -/
def newReplies (o : NewOrderSingle P) (result : Order P) : List (Reply P) :=
  .report (newReport o result) ::
    if result.status = .filled ∨ result.status = .partiallyFilled then
      [.report (fillReport o result)]
    else []

end

/-! ### The handlers -/

section

variable [LinearOrder P] [Zero P] (float : List Char → Option P)
  (symbols : List (ℕ × List Char)) (m : MatchingEngine P) (s : State P)

/-- `_resolve_symbol`. -/
def resolveSymbol (name : List Char) : Option ℕ := symbolNamed symbols name

/-- The `symbol` of an order. -/
def symbolName (symbolIdx : ℕ) : List Char :=
  ((symbols.find? fun info => info.1 = symbolIdx).map Prod.snd).getD "???".toList

/-- `_post_order`: a request that the dashboard does not answer with an order is `none`. -/
def postOrder (request : Request P) : MatchingEngine P × Option (Order P) :=
  m.handle (symbols.map Prod.fst) request

/-- `_handle_new_order`. -/
def handleNewOrder (o : NewOrderSingle P) : (MatchingEngine P × State P) × List (Reply P) :=
  match resolveSymbol symbols o.symbol with
  | none => ((m, s), [sendReject o "Unknown symbol".toList])
  | some symbolIdx =>
    match postOrder symbols m (.submit symbolIdx o.submission) with
    | (m', some result) =>
      ((m', { s with trackedOrders := s.trackedOrders.replace o.clOrdId result }),
        newReplies o result)
    | (m', none) => ((m', s), [sendReject o "Engine unavailable".toList])

/-- The side of an order that is kept, as a FIX value. -/
def sideFix (o : Order P) : List Char := if o.side = .buy then ['1'] else ['2']

/-- The report on a cancel, of the order as it is kept. -/
def cancelReport (origClOrdId : List Char) (tracked : Order P) : Report P where
  orderId := some tracked.orderId
  clOrdId := origClOrdId
  execType := '4'
  ordStatus := '4'
  symbol := symbolName symbols tracked.symbolIdx
  side := sideFix tracked
  orderQty := tracked.quantity
  price := some tracked.price
  lastQty := some 0
  lastPx := some 0
  leavesQty := 0
  cumQty := tracked.quantity - tracked.remainingQty
  avgPx := tracked.price

/-- `_handle_cancel`. -/
def handleCancel (fields : TagMap) : (MatchingEngine P × State P) × List (Reply P) :=
  let origClOrdId := getTag fields 41 []
  match s.tracked origClOrdId with
  | none => ((m, s), [.cancelReject origClOrdId "Unknown order".toList])
  | some tracked =>
    match postOrder symbols m (.cancel tracked.orderId) with
    | (m', some _) => ((m', s), [.report (cancelReport symbols origClOrdId tracked)])
    | (m', none) => ((m', s), [.cancelReject origClOrdId "Cancel failed".toList])

/-- The report on an amend. -/
def amendReport (origClOrdId : List Char) (tracked result : Order P) : Report P where
  orderId := some tracked.orderId
  clOrdId := origClOrdId
  execType := '5'
  ordStatus := mapStatus result.status
  symbol := symbolName symbols tracked.symbolIdx
  side := sideFix tracked
  orderQty := result.quantity
  price := some result.price
  lastQty := some 0
  lastPx := some 0
  leavesQty := result.remainingQty
  cumQty := cumQty result
  avgPx := result.price

/-- `_handle_amend` with its numbers read. An amend that fails is not answered. -/
def amendTracked (origClOrdId : List Char) (tracked : Order P) (newPrice : Option P)
    (newQuantity : Option ℤ) : (MatchingEngine P × State P) × List (Reply P) :=
  match postOrder symbols m (.amend tracked.orderId newPrice newQuantity) with
  | (m', some result) =>
    ((m', { s with trackedOrders := s.trackedOrders.replace origClOrdId result }),
      [.report (amendReport symbols origClOrdId tracked result)])
  | (m', none) => ((m', s), [])

/-- `_handle_amend`. -/
def handleAmend (fields : TagMap) : Option ((MatchingEngine P × State P) × List (Reply P)) :=
  let origClOrdId := getTag fields 41 []
  match s.tracked origClOrdId with
  | none => some ((m, s), [.cancelReject origClOrdId "Unknown order".toList])
  | some tracked =>
    (number? float fields 44).bind fun newPrice =>
      (number? PyString.int fields 38).map fun newQuantity =>
        amendTracked symbols m s origClOrdId tracked newPrice newQuantity

/-- `_process`, with what it sends; an exception is `none`. -/
def process (fields : TagMap) : Option ((MatchingEngine P × State P) × List (Reply P)) :=
  match getTag fields 35 [] with
  | ['A'] => some ((m, { s with targetCompId := getTag fields 49 "CLIENT".toList }),
      [.admin 'A' []])
  | ['5'] => some ((m, { s with running := false }), [.admin '5' []])
  | ['0'] => some ((m, s), [.admin '0' (getTag fields 112 [])])
  | ['1'] => some ((m, s), [.admin '0' (getTag fields 112 "TEST".toList)])
  | ['D'] => (NewOrderSingle.read float fields).map (handleNewOrder symbols m s)
  | ['F'] => some (handleCancel symbols m s fields)
  | ['G'] => handleAmend float symbols m s fields
  | _ => some ((m, s), [])

/-- What `handle` does next, or a request of another participant. -/
inductive Input (P : Type*) where
  | recv (data : List Char)
  | next
  | other (request : Request P)

/-- One turn of the loops of `handle`: more is received while the session is running and no message
is complete, and the first message that is complete is handled, whether it is running or not. An
exception ends both loops. -/
def step (w : MatchingEngine P × State P) :
    Input P → (MatchingEngine P × State P) × List (Reply P)
  | .recv data =>
    if w.2.running ∧ Framing.cut checkSumTag soh w.2.buf = none then
      if data = [] then ((w.1, { w.2 with running := false }), [])
      else ((w.1, { w.2 with buf := w.2.buf ++ PyString.decode data }), [])
    else (w, [])
  | .next =>
    match Framing.cut checkSumTag soh w.2.buf with
    | none => (w, [])
    | some (msgRaw, buf) =>
      match (FixServer.parseFix msgRaw).bind
          (process float symbols w.1 { w.2 with buf := buf }) with
      | some answer => send answer
      | none => ((w.1, { w.2 with running := false, buf := [] }), [])
  | .other request => (((postOrder symbols w.1 request).1, w.2), [])

end

end EuNEx.Dashboard.FIXSession
