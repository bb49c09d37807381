import EuNEx.Actors.Gateway
import EuNEx.Actors.Logon
import EuNEx.Book.Informed
import EuNEx.Dashboard.Bridge
import EuNEx.FIX.Sent

/-!
# The bridge and the acceptor

The two ends of a connection: `CppEngineBridge` of `dashboard/app.py`, and `FIXAcceptorActor` with
the gateway and the matching cores behind it. The bridge is the only client, and has logged on. What
it sends comes as bytes, in the order of sending; the acceptor receives what has been sent at a time
(chunks make no difference, see `EuNEx.FIX.Chunks`), and handles it with the actors behind it in one
step. What the acceptor sends has numbers and codes for values, and comes as the dictionary of its
fields, without those of the header other than 35; its replies to a logon, a logout and a heartbeat,
which the bridge passes over, are left out.
-/

namespace EuNEx

/-- The reports that a core pushes, refusals included. -/
def MECoreOutput.report? : MECoreOutput → Option ExecReportEvent
  | .execReport event | .refusal event => some event
  | _ => none

/-- The message of `sendExecReport`. -/
def FIXAcceptorActor.execReportMsg (px : PriceText) (rpt : ExecReportEvent) : TagMap :=
  FIXFields.collect ((35, "8".toList) :: execReportFields px rpt)

namespace Gateway

variable (g : Gateway)

/-- A request goes to the core of its symbol, if it has one. -/
def serve (event : MECoreEvent) : Gateway × List MECoreOutput :=
  match g.books.lookup event.symbolIdx with
  | none => (g, [])
  | some core =>
    let r := core.step (OEGActor.forward event)
    (⟨g.books.insert event.symbolIdx r.1⟩, r.2)

/-- The order that a cancel or an amend takes off its book. -/
def reached (symbolIdx orderId : ℕ) : Option (ℕ × ℕ) :=
  (g.books.lookup symbolIdx).bind fun core =>
    (core.book.cancelOrder orderId).map fun _ => (symbolIdx, orderId)

/-- The order that an amend puts in the place of another. -/
def replacement (event : ModifyOrderEvent) : Option Order :=
  (g.books.lookup event.symbolIdx).bind fun core =>
    (core.book.cancelOrder event.orderId).map fun c =>
      c.book.replacement c.report event.newPrice event.newQuantity

end Gateway

namespace Dashboard

variable {P : Type*}

/-- What `format` and `strftime` write: texts of ASCII without separators. -/
def Plain (text : List Char) : Prop := ∀ c ∈ text, c.toNat < 128 ∧ c ≠ soh ∧ c ≠ '='

instance (text : List Char) : Decidable (Plain text) :=
  List.decidableBAll (fun c : Char => c.toNat < 128 ∧ c ≠ soh ∧ c ≠ '=') text

/-- What is left open: the name that `symbols` has for a symbol, or `???`; the text that a price is
sent as, with two decimals, and `float` of a text; the prices of the acceptor as text; `toDouble`;
and the time at which the message with a number is sent, as text and in milliseconds. -/
structure Wire (P : Type*) where
  name : ℕ → List Char
  format : P → List Char
  float : List Char → P
  px : PriceText
  toDouble : ℤ → P
  sendingTime : ℕ → List Char
  millis : ℕ → ℕ
  plain_format : ∀ p, Plain (format p)
  plain_sendingTime : ∀ seq, Plain (sendingTime seq)

/-! ### Messages -/

namespace CppEngineBridge

section

variable (w : Wire P)

/-- `fix_side`. -/
def fixSide (s : Side) : List Char := if s = .buy then "1".toList else "2".toList

/-- `fix_tif`. -/
def fixTif : TimeInForce → List Char
  | .day => "0".toList
  | .gtc => "1".toList
  | .ioc => "3".toList
  | .fok => "4".toList

/-- The ClOrdID of a new order. -/
def clOrdIdOf (orderId : ℕ) (r : Submission P) : List Char :=
  if r.clOrdId = [] then CString.toString orderId else r.clOrdId

/-- The fields of `submit_order`. -/
def newOrderSingle (symbolIdx orderId : ℕ) (r : Submission P) (source : List Char) :
    List (ℕ × List Char) :=
  [(35, "D".toList),
    (49, "DASHBOARD-".toList ++ source),
    (56, "EUNEX".toList),
    (11, clOrdIdOf orderId r),
    (55, w.name symbolIdx),
    (54, fixSide r.side),
    (40, if r.orderType = .market then "1".toList else "2".toList),
    (44, w.format r.price),
    (38, PyString.str r.quantity),
    (59, fixTif r.tif)]

/-- The ClOrdID of a cancel or an amend. -/
def requestId (kind : List Char) (orderId seq : ℕ) : List Char :=
  kind ++ '-' :: CString.toString orderId ++ '-' :: CString.toString (w.millis seq)

/-- The fields of `cancel_order`. -/
def cancelRequest (seq : ℕ) (o : Order P) : List (ℕ × List Char) :=
  [(35, "F".toList),
    (49, "DASHBOARD".toList),
    (56, "EUNEX".toList),
    (11, requestId w "CXL".toList o.orderId seq),
    (41, o.clOrdId),
    (55, w.name o.symbolIdx),
    (54, fixSide o.side),
    (38, PyString.str o.remainingQty)]

/-- The fields of `amend_order`. -/
def cancelReplaceRequest (seq : ℕ) (o : Order P) (newPrice : Option P) (newQuantity : Option ℤ) :
    List (ℕ × List Char) :=
  [(35, "G".toList),
    (49, "DASHBOARD".toList),
    (56, "EUNEX".toList),
    (11, requestId w "AMD".toList o.orderId seq),
    (41, o.clOrdId),
    (55, w.name o.symbolIdx),
    (54, fixSide o.side),
    (44, w.format (newPrice.getD o.price)),
    (38, PyString.str (newQuantity.getD o.quantity))]

/-- The fields that a request sends, with the id of the order that it is for. The source is that of
a new order. -/
def outgoing (a : App P) (seq : ℕ) (request : Request P) (source : List Char) :
    Option (ℕ × List (ℕ × List Char)) :=
  if a.connected then
    match request with
    | .submit symbolIdx r =>
      some (a.nextOrderId, newOrderSingle w symbolIdx a.nextOrderId r source)
    | .cancel orderId =>
      (a.orders.find? fun o => o.orderId = orderId ∧ o.isOpen = true).map fun o =>
        (orderId, cancelRequest w seq o)
    | .amend orderId newPrice newQuantity =>
      (a.orders.find? fun o => o.orderId = orderId ∧ o.isOpen = true).map fun o =>
        (orderId, cancelReplaceRequest w seq o newPrice newQuantity)
  else none

/-- The bytes that `_send_fix` sends of the fields. -/
def sent (seq : ℕ) (fields : List (ℕ × List Char)) : List Char :=
  PyString.encode (CppEngineBridge.sendFix fields seq (w.sendingTime seq))

/-- `int(fields.get(tag, 0))`. -/
def intField (fields : TagMap) (tag : ℤ) : Option ℤ :=
  match fields.lookup tag with
  | none => some 0
  | some text => PyString.int text

/-- The fields that `_handle_exec_report` reads, or `none` for a `ValueError`. -/
def readExecReport [Zero P] (fields : TagMap) : Option (ExecReport P) :=
  (intField fields 32).bind fun lastQty => (intField fields 151).map fun leavesQty =>
    { clOrdId := getTag fields 11 []
      execType := getTag fields 150 []
      ordStatus := getTag fields 39 []
      lastPx := ((fields.lookup 31).map w.float).getD 0
      lastQty := lastQty
      leavesQty := leavesQty }

/-- `_handle_fix_msg`. An exception ends `_recv_loop`. -/
def handleFixMsg [Zero P] (symbols : List ℕ) (a : App P) (fields : TagMap) : App P :=
  if fields.lookup 35 = some "8".toList then
    match readExecReport w fields with
    | some r => handleExecReport a symbols r
    | none => { a with connected := false }
  else a

end

end CppEngineBridge

/-! ### What the bridge sends -/

lemma Plain.clean {text : List Char} (h : Plain text) : Clean text :=
  clean_of_forall fun c hc => (h c hc).2

lemma Plain.encode {text : List Char} (h : Plain text) : PyString.encode text = text :=
  PyString.encode_of_ascii fun c hc => (h c hc).1

namespace CppEngineBridge

section

variable (w : Wire P) {fields : List (ℕ × List Char)} {symbolIdx orderId seq : ℕ}
  {r : Submission P} {source : List Char} {o : Order P} {newPrice : Option P}
  {newQuantity : Option ℤ}

lemma clean_fixSide (s : Side) : Clean (fixSide s) := by cases s <;> decide

lemma clean_fixTif (tif : TimeInForce) : Clean (fixTif tif) := by cases tif <;> decide

lemma clean_requestId {kind : List Char} (hkind : Plain kind) :
    Clean (requestId w kind orderId seq) := by
  have hdigits (n : ℕ) : ∀ c ∈ CString.toString n, c ≠ soh ∧ c ≠ '=' := by
    intro c hc
    constructor <;> rintro rfl <;> exact absurd (CString.isDigit_of_mem_toString hc) (by decide)
  refine clean_of_forall fun c hc => ?_
  simp only [requestId, List.mem_append, List.mem_cons, List.append_assoc, List.cons_append] at hc
  rcases hc with hc | rfl | hc | rfl | hc
  · exact (hkind c hc).2
  · decide
  · exact hdigits orderId c hc
  · decide
  · exact hdigits _ c hc

/-- A new order is one message if the texts that come from outside are clean. -/
lemma requested_newOrderSingle (hsource : Clean source) (hcl : Clean (clOrdIdOf orderId r))
    (hname : Clean (w.name symbolIdx)) :
    Requested (newOrderSingle w symbolIdx orderId r source) where
  tags := by simp [newOrderSingle, sentTags]
  clean := by
    have htype : Clean (if r.orderType = .market then "1".toList else "2".toList) := by
      split <;> decide
    simp only [newOrderSingle, List.forall_mem_cons]
    exact ⟨by decide, .append (by decide) hsource (by simp), by decide, hcl, hname,
      clean_fixSide r.side, htype, (w.plain_format r.price).clean, clean_str r.quantity,
      clean_fixTif r.tif, by simp⟩
  distinct := by simp [newOrderSingle]
  seqless := by simp [newOrderSingle]
  timeless := by simp [newOrderSingle]
  type := ⟨"D".toList, List.mem_cons_self, by decide⟩

lemma requested_cancelRequest (hcl : Clean o.clOrdId) (hname : Clean (w.name o.symbolIdx)) :
    Requested (cancelRequest w seq o) where
  tags := by simp [cancelRequest, sentTags]
  clean := by
    simp only [cancelRequest, List.forall_mem_cons]
    exact ⟨by decide, by decide, by decide, clean_requestId w (by decide), hcl, hname,
      clean_fixSide o.side, clean_str o.remainingQty, by simp⟩
  distinct := by simp [cancelRequest]
  seqless := by simp [cancelRequest]
  timeless := by simp [cancelRequest]
  type := ⟨"F".toList, List.mem_cons_self, by decide⟩

lemma requested_cancelReplaceRequest (hcl : Clean o.clOrdId)
    (hname : Clean (w.name o.symbolIdx)) :
    Requested (cancelReplaceRequest w seq o newPrice newQuantity) where
  tags := by simp [cancelReplaceRequest, sentTags]
  clean := by
    simp only [cancelReplaceRequest, List.forall_mem_cons]
    exact ⟨by decide, by decide, by decide, clean_requestId w (by decide), hcl, hname,
      clean_fixSide o.side, (w.plain_format _).clean, clean_str _, by simp⟩
  distinct := by simp [cancelReplaceRequest]
  seqless := by simp [cancelReplaceRequest]
  timeless := by simp [cancelReplaceRequest]
  type := ⟨"G".toList, List.mem_cons_self, by decide⟩

lemma received_sent (h : Requested fields) (seq : ℕ) : ∃ msg,
    FIXAcceptorActor.clientRecvLoop (some []) (sent w seq fields) = (some [], [msg]) ∧
      (∀ field ∈ fields, msg.lookup (field.1 : ℤ) = some (PyString.encode field.2)) ∧
      msg.lookup 37 = none :=
  h.clientRecvLoop_sendFix seq (w.plain_sendingTime seq).clean

end

end CppEngineBridge

/-! ### What is read of a message -/

section

variable (w : Wire P) (sess : FIXSession)

/-- What the acceptor makes of the message of `submit_order`. -/
structure Arrives (event : NewOrderEvent) (clOrdId name price qty : List Char) : Prop where
  clOrdId : event.clOrdId = CString.strtoull clOrdId
  symbolIdx : event.symbolIdx = symbolFromString name
  price : event.price = w.px.parse price
  quantity : event.quantity = CString.strtoull qty
  executable : event.ordType.isStop = false
  stopPrice : event.stopPrice = 0
  sessionId : event.sessionId = sess.sessionId

lemma arrives_of_lookup {msg : TagMap} {clOrdId name price qty : List Char}
    (h35 : msg.lookup 35 = some "D".toList) (h11 : msg.lookup 11 = some clOrdId)
    (h55 : msg.lookup 55 = some name) (h44 : msg.lookup 44 = some price)
    (h38 : msg.lookup 38 = some qty) :
    (FIXAcceptorActor.recv w.px {} sess msg).2
        = some (.newOrder (handleNewOrderSingle w.px sess msg)) ∧
      Arrives w sess (handleNewOrderSingle w.px sess msg) clOrdId name price qty := by
  have htag : ∀ {tag val}, msg.lookup tag = some val → ∀ default, getTag msg tag default = val :=
    fun h default => by rw [getTag, h, Option.getD_some]
  have hA : "D".toList ≠ "A".toList := by decide
  have h5 : "D".toList ≠ "5".toList := by decide
  have h0 : "D".toList ≠ "0".toList := by decide
  constructor
  · simp only [FIXAcceptorActor.recv, htag h35, if_neg hA, if_neg h5, if_neg h0, if_true]
  · constructor
    · exact congrArg CString.strtoull (htag h11 _)
    · exact congrArg symbolFromString (htag h55 _)
    · exact congrArg w.px.parse (htag h44 _)
    · exact congrArg CString.strtoull (htag h38 _)
    · show OrderType.isStop (if getTag msg 40 [] = "1".toList then .market else .limit) = false
      split <;> rfl
    · rfl
    · rfl

/-- A new order arrives with its ClOrdID, its symbol, its price and its quantity. -/
lemma exists_arrives {symbolIdx orderId n : ℕ} {r : Submission P} {source : List Char}
    (hsource : Clean source) (hname : Clean (w.name symbolIdx))
    (hcl : CppEngineBridge.clOrdIdOf orderId r = CString.toString n) (hqty : 0 ≤ r.quantity)
    (seq : ℕ) : ∃ msg event,
    FIXAcceptorActor.clientRecvLoop (some []) (CppEngineBridge.sent w seq
        (CppEngineBridge.newOrderSingle w symbolIdx orderId r source)) = (some [], [msg]) ∧
      (FIXAcceptorActor.recv w.px {} sess msg).2 = some (.newOrder event) ∧
      Arrives w sess event (CppEngineBridge.clOrdIdOf orderId r)
        (PyString.encode (w.name symbolIdx)) (w.format r.price)
        (CString.toString r.quantity.toNat) := by
  have hclean : Clean (CppEngineBridge.clOrdIdOf orderId r) := by
    rw [hcl]
    exact clean_toString n
  have hrequested := CppEngineBridge.requested_newOrderSingle w hsource hclean hname
  obtain ⟨msg, hmsg, hvalue, -⟩ := CppEngineBridge.received_sent w hrequested seq
  have hdigits (n : ℕ) : PyString.encode (CString.toString n) = CString.toString n :=
    encode_of_digits fun c hc => CString.isDigit_of_mem_toString hc
  have hstr : PyString.str r.quantity = CString.toString r.quantity.toNat := by
    rw [← PyString.str_natCast, Int.toNat_of_nonneg hqty]
  have h35 := hvalue (35, "D".toList) (by simp [CppEngineBridge.newOrderSingle])
  have h11 := hvalue (11, _) (.tail _ (.tail _ (.tail _ (.head _))))
  have h55 := hvalue (55, w.name symbolIdx) (by simp [CppEngineBridge.newOrderSingle])
  have h44 := hvalue (44, w.format r.price) (by simp [CppEngineBridge.newOrderSingle])
  have h38 := hvalue (38, PyString.str r.quantity) (by simp [CppEngineBridge.newOrderSingle])
  rw [hcl, hdigits, ← hcl] at h11
  rw [(w.plain_format r.price).encode] at h44
  rw [hstr, hdigits] at h38
  exact ⟨msg, _, hmsg, arrives_of_lookup w sess h35 h11 h55 h44 h38⟩

/-- The codes of the status, with what is left, give the status. -/
lemma status_of_codes {rpt : ExecutionReport} (hfits : rpt.Fits) {r : ExecReport P}
    (hexec : r.execType = FIXAcceptorActor.statusToExecType rpt.status)
    (hord : r.ordStatus = FIXAcceptorActor.statusToOrdStatus rpt.status)
    (hleaves : r.leavesQty = rpt.remainingQty) (old : OrderStatus) : r.status old = rpt.status := by
  rw [ExecutionReport.Fits] at hfits
  rw [ExecReport.status, hexec, hord, hleaves]
  cases hstatus : rpt.status with
  | new =>
    simp [FIXAcceptorActor.statusToExecType, FIXAcceptorActor.statusToOrdStatus]
  | partiallyFilled =>
    rw [hstatus] at hfits
    simp [FIXAcceptorActor.statusToExecType, hfits.1.ne']
  | filled =>
    rw [hstatus] at hfits
    simp [FIXAcceptorActor.statusToExecType, show rpt.remainingQty = 0 from hfits]
  | cancelled | rejected =>
    simp [FIXAcceptorActor.statusToExecType, FIXAcceptorActor.statusToOrdStatus]

lemma exists_readExecReport_of_lookup [Zero P] {msg : TagMap} {rpt : ExecutionReport}
    (hfits : rpt.Fits) (h11 : msg.lookup 11 = some (CString.toString rpt.clOrdId))
    (h150 : msg.lookup 150 = some (FIXAcceptorActor.statusToExecType rpt.status))
    (h39 : msg.lookup 39 = some (FIXAcceptorActor.statusToOrdStatus rpt.status))
    (h151 : msg.lookup 151 = some (CString.toString rpt.remainingQty))
    (h32 : msg.lookup 32 = none ∨ msg.lookup 32 = some (CString.toString rpt.lastQty)) :
    ∃ r : ExecReport P, CppEngineBridge.readExecReport w msg = some r ∧
      r.clOrdId = CString.toString rpt.clOrdId ∧ r.leavesQty = rpt.remainingQty ∧
      0 ≤ r.lastQty ∧ r.lastQty ≤ rpt.lastQty ∧ ∀ old, r.status old = rpt.status := by
  have htag : ∀ {tag val}, msg.lookup tag = some val → ∀ default, getTag msg tag default = val :=
    fun h default => by rw [getTag, h, Option.getD_some]
  have hleaves : CppEngineBridge.intField msg 151 = some (rpt.remainingQty : ℤ) := by
    simp only [CppEngineBridge.intField, h151, PyString.int_toString]
  obtain ⟨lastQty, hlast, hnonneg, hle⟩ : ∃ n : ℤ, CppEngineBridge.intField msg 32 = some n ∧
      0 ≤ n ∧ n ≤ rpt.lastQty := by
    rcases h32 with h32 | h32
    · exact ⟨0, by simp only [CppEngineBridge.intField, h32], le_rfl, Int.natCast_nonneg _⟩
    · exact ⟨rpt.lastQty, by simp only [CppEngineBridge.intField, h32, PyString.int_toString],
        Int.natCast_nonneg _, le_rfl⟩
  refine ⟨_, by rw [CppEngineBridge.readExecReport, hlast, hleaves]; rfl, htag h11 _, rfl, hnonneg,
    hle, ?_⟩
  exact status_of_codes hfits (htag h150 _) (htag h39 _) rfl

/-- What `_handle_exec_report` makes of a report whose status goes with the quantities. -/
lemma exists_readExecReport [Zero P] {rpt : ExecReportEvent} (hfits : rpt.Fits) :
    (FIXAcceptorActor.execReportMsg w.px rpt).lookup 35 = some "8".toList ∧
    ∃ r : ExecReport P,
      CppEngineBridge.readExecReport w (FIXAcceptorActor.execReportMsg w.px rpt) = some r ∧
      r.clOrdId = CString.toString rpt.clOrdId ∧ r.leavesQty = rpt.remainingQty ∧
      0 ≤ r.lastQty ∧ r.lastQty ≤ rpt.lastQty ∧ ∀ old, r.status old = rpt.status := by
  have hnodup : (((35, "8".toList) :: FIXAcceptorActor.execReportFields w.px rpt).map
      Prod.fst).Nodup := by
    rw [FIXAcceptorActor.execReportFields]
    split <;> simp
  have hlookup : ∀ (tag : ℕ) (val : List Char),
      (tag, val) ∈ (35, "8".toList) :: FIXAcceptorActor.execReportFields w.px rpt →
      (FIXAcceptorActor.execReportMsg w.px rpt).lookup (tag : ℤ) = some val :=
    fun tag val hmem => FIXFields.lookup_collect_of_mem hnodup hmem
  refine ⟨hlookup 35 _ List.mem_cons_self, exists_readExecReport_of_lookup w hfits
    (hlookup 11 _ (by simp [FIXAcceptorActor.execReportFields]))
    (hlookup 150 _ (by simp [FIXAcceptorActor.execReportFields]))
    (hlookup 39 _ (by simp [FIXAcceptorActor.execReportFields]))
    (hlookup 151 _ (by simp [FIXAcceptorActor.execReportFields])) ?_⟩
  by_cases hlast : 0 < rpt.lastQty
  · refine .inr (hlookup 32 _ ?_)
    simp [FIXAcceptorActor.execReportFields, hlast]
  · refine .inl (Option.eq_none_iff_forall_ne_some.mpr fun val hval => ?_)
    obtain ⟨field, hfield, htag, -⟩ := (FIXFields.lookup_collect hnodup).mp hval
    simp only [FIXAcceptorActor.execReportFields, if_neg hlast, List.append_nil, List.mem_cons,
      List.not_mem_nil, or_false] at hfield
    rcases hfield with rfl | rfl | rfl | rfl | rfl | rfl | rfl | rfl <;> cases htag

end

/-! ### The connection -/

/-- The bridge with the dashboard and the next `_seq`, the gateway with the matching cores, the
buffer of `clientRecvLoop`, and what is on its way; bytes to the acceptor come with the id of the
order that they are for. -/
structure Link (P : Type*) where
  app : App P
  gateway : Gateway
  seq : ℕ := 2
  buffer : Option (List Char) := some []
  toAcceptor : List (ℕ × List Char) := []
  toBridge : List TagMap := []

/-- A request comes to the bridge, the acceptor receives, or `_recv_loop` handles a message. -/
inductive LinkInput (P : Type*) where
  | request (request : Request P) (source : List Char)
  | acceptor
  | bridge
deriving DecidableEq, Repr

/-- What there is to see of the C++ engine: an order of the dashboard enters a book, which an
amended order does again; a book reports on an order; and a cancel or an amend that was issued for
an order is handled. -/
inductive LinkEvent where
  | entered (orderId symbolIdx : ℕ) (order : EuNEx.Order)
  | reported (symbolIdx : ℕ) (report : ExecutionReport)
  | requested (orderId : ℕ) (reached : Option (ℕ × ℕ))
deriving DecidableEq, Repr

namespace Link

/-- What becomes of a message for an order, and of the order. -/
def arrival (g : Gateway) (orderId : ℕ) : MECoreEvent → List LinkEvent
  | .newOrder event => (g.books.lookup event.symbolIdx).toList.map fun core =>
      .entered orderId event.symbolIdx (core.book.entered event.order)
  | .cancelOrder event => [.requested orderId (g.reached event.symbolIdx event.orderId)]
  | .modifyOrder event => .requested orderId (g.reached event.symbolIdx event.orderId) ::
      (g.replacement event).toList.map (.entered orderId event.symbolIdx)

/-- The reports on orders; a refusal is none. -/
def reported (symbolIdx : ℕ) (outs : List MECoreOutput) : List LinkEvent :=
  outs.filterMap fun
    | .execReport event => some (.reported symbolIdx event.toExecutionReport)
    | _ => none

variable [Zero P] (w : Wire P) (symbols : List ℕ) (sess : FIXSession)

/-- Both ends when the bridge has just logged on. `mapped` are the symbols that have a core. -/
def start (mapped : List ℕ) (hasClearingHouse : Bool) : Link P where
  app := { cpp := true, connected := true }
  gateway := Gateway.mapped mapped hasClearingHouse

omit [Zero P] in
/-- An event goes to its core, with all that follows from it. -/
def handleEvent (orderId : ℕ) (l : Link P) (event : MECoreEvent) : Link P × List LinkEvent :=
  let r := l.gateway.serve event
  let reports := (r.2.filterMap MECoreOutput.report?).filter fun rpt =>
    rpt.sessionId = sess.sessionId
  ({ l with
      gateway := r.1
      toBridge := l.toBridge ++ reports.map (FIXAcceptorActor.execReportMsg w.px) },
    arrival l.gateway orderId event ++ reported event.symbolIdx r.2)

omit [Zero P] in
/-- The acceptor handles a message. -/
def handleMessage (orderId : ℕ) (l : Link P) (msg : TagMap) : Link P × List LinkEvent :=
  match (FIXAcceptorActor.recv w.px {} sess msg).2 with
  | none => (l, [])
  | some event => handleEvent w sess orderId l event

/-- One step. -/
def step (l : Link P) : LinkInput P → Link P × List LinkEvent
  | .request request source =>
    let app := (CppEngineBridge.handle l.app request).1
    match CppEngineBridge.outgoing w l.app l.seq request source with
    | none => ({ l with app := app }, [])
    | some (orderId, fields) =>
      ({ l with
          app := app
          seq := l.seq + 1
          toAcceptor := l.toAcceptor ++ [(orderId, CppEngineBridge.sent w l.seq fields)] }, [])
  | .acceptor =>
    match l.toAcceptor with
    | [] => (l, [])
    | (orderId, data) :: rest =>
      let (buffer, messages) := FIXAcceptorActor.clientRecvLoop l.buffer data
      Machine.run (handleMessage w sess orderId)
        { l with buffer := buffer, toAcceptor := rest } messages
  | .bridge =>
    match l.toBridge with
    | [] => (l, [])
    | fields :: rest =>
      if l.app.connected then
        ({ l with
            app := CppEngineBridge.handleFixMsg w symbols l.app fields
            toBridge := rest }, [])
      else (l, [])

end Link

end Dashboard

end EuNEx
