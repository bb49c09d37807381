import EuNEx.Actors.Events
import EuNEx.Lib.CString
import Mathlib.Data.Finmap

/-!
# The FIX acceptor

`actors/FIXAcceptorActor.cpp`: the sessions, the messages that become events for the gateway, and
the execution reports that become messages. `sessionMutex_` is a flag: taking it while it is held
never returns, which is `none`. What is sent on the sockets is kept in order; sockets and sending
times are left out. Prices pass through `double` on their way in and out, which is left open.
-/

namespace EuNEx

open CString (strtoull strtoul)

/-- `TagMap`: a parsed message. -/
abbrev TagMap := Finmap fun _ : ℤ => List Char

def getTag (msg : TagMap) (tag : ℤ) (default : List Char) : List Char :=
  (msg.lookup tag).getD default

/-- The text of a price: `toFixedPrice(strtod(..))`, and `to_string(toDouble(..))`. -/
structure PriceText where
  parse : List Char → ℤ
  print : ℤ → List Char

/-- `symbolFromString`, whose last cast is to 32 bits. -/
def symbolFromString (sym : List Char) : ℕ :=
  if sym = "AAPL".toList then 1
  else if sym = "MSFT".toList then 2
  else if sym = "GOOGL".toList then 3
  else if sym = "TSLA".toList then 4
  else if sym = "NVDA".toList then 5
  else if sym = "AMD".toList then 6
  else if sym = "ENX".toList then 7
  else strtoul sym % 2 ^ 32

/-- A session, with whether its `recvThread` is still receiving. -/
structure FIXSession where
  sessionId : ℕ
  senderCompId : List Char := []
  msgSeqNum : ℕ := 1
  loggedOn : Bool := false
  receiving : Bool := true

/-- A message of `sendFIX`, as its header fields and its own fields. -/
structure FIXMessage where
  msgType : List Char
  targetCompId : List Char
  msgSeqNum : ℕ
  fields : List (ℕ × List Char)

structure FIXAcceptorActor where
  sessions : Finmap fun _ : ℕ => FIXSession := ∅
  nextSessionId : ℕ := 100
  sessionMutex : Bool := false
  sent : List (ℕ × FIXMessage) := []

/-! ### Inbound messages -/

section

variable (px : PriceText) (sess : FIXSession) (msg : TagMap)

def handleNewOrderSingle : NewOrderEvent where
  clOrdId := strtoull (getTag msg 11 [])
  symbolIdx := symbolFromString (getTag msg 55 [])
  side := if getTag msg 54 [] = "1".toList then .buy else .sell
  ordType := if getTag msg 40 [] = "1".toList then .market else .limit
  tif :=
    let tifStr := getTag msg 59 "0".toList
    if tifStr = "1".toList then .gtc
    else if tifStr = "3".toList then .ioc
    else if tifStr = "4".toList then .fok
    else .day
  price := px.parse (getTag msg 44 "0".toList)
  quantity := strtoull (getTag msg 38 [])
  sessionId := sess.sessionId

def handleCancelRequest : CancelOrderEvent where
  orderId := strtoull (getTag msg 37 "0".toList)
  origClOrdId := strtoull (getTag msg 41 [])
  symbolIdx := symbolFromString (getTag msg 55 [])
  sessionId := sess.sessionId

def handleCancelReplaceRequest : ModifyOrderEvent where
  orderId := strtoull (getTag msg 37 "0".toList)
  origClOrdId := strtoull (getTag msg 41 [])
  symbolIdx := symbolFromString (getTag msg 55 [])
  newPrice := px.parse (getTag msg 44 "0".toList)
  newQuantity := strtoull (getTag msg 38 [])
  sessionId := sess.sessionId

end

namespace FIXAcceptorActor

variable (f : FIXAcceptorActor)

/-- `lock_guard<mutex> lock(sessionMutex_)`. -/
def lock : Option FIXAcceptorActor :=
  if f.sessionMutex then none else some { f with sessionMutex := true }

/-- The end of the scope of a `lock_guard`. -/
def unlock : FIXAcceptorActor := { f with sessionMutex := false }

/-- `acceptLoop`: a client connects. -/
def accept : Option FIXAcceptorActor :=
  f.lock.map fun f => unlock { f with
    sessions := f.sessions.insert f.nextSessionId { sessionId := f.nextSessionId }
    nextSessionId := (f.nextSessionId + 1) % 2 ^ 16 }

/-! ### Outbound messages -/

def sendFIX (sess : FIXSession) (msgType : List Char) (fields : List (ℕ × List Char)) :
    FIXAcceptorActor :=
  { f with
    sessions := f.sessions.insert sess.sessionId { sess with msgSeqNum := sess.msgSeqNum + 1 }
    sent := f.sent ++
      [(sess.sessionId, ⟨msgType, sess.senderCompId, sess.msgSeqNum, fields⟩)] }

def handleLogon (sess : FIXSession) (msg : TagMap) : FIXAcceptorActor :=
  f.sendFIX { sess with
      senderCompId := getTag msg 49 "UNKNOWN".toList
      loggedOn := true }
    "A".toList [(98, "0".toList), (108, "30".toList)]

/-- The reply to a logout, after which the receive loop returns. -/
def logout (sess : FIXSession) : FIXAcceptorActor :=
  f.sendFIX { sess with receiving := false } "5".toList []

/-- The end of `clientRecvLoop` when the client is gone. -/
def close (sessionId : ℕ) : Option FIXAcceptorActor :=
  f.lock.map fun f => unlock (match f.sessions.lookup sessionId with
    | none => f
    | some sess =>
      { f with sessions := f.sessions.insert sessionId { sess with receiving := false } })

def statusToOrdStatus : OrderStatus → List Char
  | .new => "0".toList
  | .partiallyFilled => "1".toList
  | .filled => "2".toList
  | .cancelled => "4".toList
  | .rejected => "8".toList

def statusToExecType : OrderStatus → List Char
  | .new => "0".toList
  | .partiallyFilled => "F".toList
  | .filled => "F".toList
  | .cancelled => "4".toList
  | .rejected => "8".toList

def execReportFields (px : PriceText) (rpt : ExecReportEvent) : List (ℕ × List Char) :=
  [(37, CString.toString rpt.orderId),
    (11, CString.toString rpt.clOrdId),
    (17, CString.toString rpt.tradeId),
    (150, statusToExecType rpt.status),
    (39, statusToOrdStatus rpt.status),
    (14, CString.toString rpt.filledQty),
    (151, CString.toString rpt.remainingQty)] ++
  if 0 < rpt.lastQty then
    [(31, px.print rpt.lastPrice), (32, CString.toString rpt.lastQty)]
  else []

/-- `onEvent(ExecReportEvent)`, which is `sendExecReport`. -/
def sendExecReport (px : PriceText) (rpt : ExecReportEvent) : Option FIXAcceptorActor :=
  f.lock.map fun f => unlock (match f.sessions.lookup rpt.sessionId with
    | none => f
    | some sess =>
      if sess.loggedOn then f.sendFIX sess "8".toList (execReportFields px rpt) else f)

end FIXAcceptorActor

end EuNEx
