import EuNEx.Actors.FIXAcceptor
import EuNEx.Actors.MarketData
import EuNEx.Actors.OEG

/-!
# The exchange as wired by `main`

All actors are created outside an `Engine`, so `Pipe::push` calls the handler of the receiver at
once, on the thread and under the locks of the sender. A receive loop of the FIX acceptor handles
a message with `sessionMutex_` held, and an execution report comes back to the acceptor, which
takes `sessionMutex_` again.
-/

namespace EuNEx

/-- The actors. `books` holds the matching core of each symbol that `symbolMap_` of the gateway
maps. The clearing house answers to nobody and is left out, as is what the AI trader does with
reports, which is nothing. -/
structure Exchange where
  fix : FIXAcceptorActor
  oeg : OEGActor
  books : Finmap fun _ : ℕ => MECoreActor
  mdg : MDGActor

/-- What can happen to the exchange from outside. -/
inductive ExchangeInput where
  /-- a FIX client connects -/
  | accept
  /-- a FIX message arrives on a session -/
  | message (sessionId : ℕ) (msg : TagMap)
  /-- a FIX client is gone -/
  | close (sessionId : ℕ)
  /-- the AI trader or the seeding of the books sends a request to the gateway -/
  | submit (event : MECoreEvent)

namespace Exchange

variable (px : PriceText) (x : Exchange)

/-! ### Inline delivery -/

/-- Push a report to a subscriber. -/
def notify : Subscriber → ExecReportEvent → Option Exchange
  | .fixAcceptor, event => (x.fix.sendExecReport px event).map fun fix => { x with fix := fix }
  | .aiTrader, _ => some x

/-- `OEGActor::onEvent(ExecReportEvent)`. -/
def onExecReport (event : ExecReportEvent) : Option Exchange :=
  x.oeg.execReportSubscribers.foldlM (fun x subscriber => notify px x subscriber event)
    { x with oeg := { x.oeg with reports := x.oeg.reports ++ [event] } }

/-- Deliver one push of a matching core. -/
def deliver : MECoreOutput → Option Exchange
  | .execReport event => x.onExecReport px event
  | .refusal event => x.onExecReport px event
  | out => some { x with mdg := x.mdg.deliver out }

/-- A request comes to the gateway. The pushes of the matching core are delivered one by one. -/
def submit (event : MECoreEvent) : Option Exchange :=
  match x.books.lookup event.symbolIdx with
  | none => some x
  | some core =>
    let r := core.step (OEGActor.forward event)
    r.2.foldlM (deliver px) { x with books := x.books.insert event.symbolIdx r.1 }

/-! ### Inbound FIX messages -/

/-- What `clientRecvLoop` does with a message of a session, the lock being held. -/
def handleMessage (sess : FIXSession) (msg : TagMap) : Option Exchange :=
  let msgType := getTag msg 35 []
  if msgType = "A".toList then some { x with fix := x.fix.handleLogon sess msg }
  else if msgType = "5".toList then some { x with fix := x.fix.logout sess }
  else if msgType = "0".toList then some { x with fix := x.fix.sendFIX sess "0".toList [] }
  else if msgType = "D".toList then x.submit px (.newOrder (handleNewOrderSingle px sess msg))
  else if msgType = "F".toList then x.submit px (.cancelOrder (handleCancelRequest sess msg))
  else if msgType = "G".toList then
    x.submit px (.modifyOrder (handleCancelReplaceRequest px sess msg))
  else some x

/-- One message in `clientRecvLoop`: take the lock, find the session, handle, release. Without a
running receive loop nobody reads the message. -/
def recvMessage (sessionId : ℕ) (msg : TagMap) : Option Exchange :=
  match x.fix.sessions.lookup sessionId with
  | none => some x
  | some sess =>
    if sess.receiving then
      (x.fix.lock.bind fun fix => handleMessage px { x with fix := fix } sess msg).map
        fun x => { x with fix := x.fix.unlock }
    else some x

def handle : ExchangeInput → Option Exchange
  | .accept => x.fix.accept.map fun fix => { x with fix := fix }
  | .message sessionId msg => x.recvMessage px sessionId msg
  | .close sessionId => (x.fix.close sessionId).map fun fix => { x with fix := fix }
  | .submit event => x.submit px event

/-- The exchange, or `none` once a thread waits for a lock that it holds. -/
def step (px : PriceText) (x : Option Exchange) (input : ExchangeInput) :
    Option Exchange × List Empty :=
  (x.bind fun x => x.handle px input, [])

/-- The symbols of `main`. -/
def allSymbols : List ℕ := [1, 2, 3, 4, 5, 6, 7]

/-- The exchange as `main` wires it. -/
def main : Exchange where
  fix := {}
  oeg := { execReportSubscribers := [.fixAcceptor, .aiTrader] }
  books := (allSymbols.map fun symbolIdx =>
    (⟨symbolIdx, MECoreActor.new symbolIdx true⟩ : Sigma fun _ : ℕ => MECoreActor)).toFinmap
  mdg := {}

/-! ### The lock -/

variable {px x} {x' : Exchange} {event : ExecReportEvent}

/-- Nobody holds the lock, and the acceptor hears of reports. -/
structure Free (x : Exchange) : Prop where
  sessionMutex : x.fix.sessionMutex = false
  subscribed : .fixAcceptor ∈ x.oeg.execReportSubscribers

/-- A receive loop holds the lock, and the acceptor hears of reports. -/
structure Held (x : Exchange) : Prop where
  sessionMutex : x.fix.sessionMutex = true
  subscribed : .fixAcceptor ∈ x.oeg.execReportSubscribers

lemma notify_held (h : x.Held) : notify px x .fixAcceptor event = none := by
  simp [notify, FIXAcceptorActor.sendExecReport, FIXAcceptorActor.lock, h.sessionMutex]

lemma Held.notify (h : x.Held) {subscriber : Subscriber}
    (hx : notify px x subscriber event = some x') : x'.Held := by
  cases subscriber with
  | fixAcceptor =>
    rw [notify_held h] at hx
    cases hx
  | aiTrader =>
    cases hx
    exact h

lemma Free.notify (h : x.Free) (subscriber : Subscriber) :
    ∃ x', notify px x subscriber event = some x' ∧ x'.Free := by
  cases subscriber with
  | fixAcceptor =>
    simp only [Exchange.notify, FIXAcceptorActor.sendExecReport, FIXAcceptorActor.lock,
      h.sessionMutex, Bool.false_eq_true, if_false, Option.map_some]
    exact ⟨_, rfl, rfl, h.subscribed⟩
  | aiTrader => exact ⟨x, rfl, h⟩

/-- A report that is delivered while the lock is held never comes back. -/
lemma onExecReport_held (h : x.Held) : x.onExecReport px event = none := by
  have hreports : ({ x with oeg := { x.oeg with reports := x.oeg.reports ++ [event] } } :
      Exchange).Held := ⟨h.sessionMutex, h.subscribed⟩
  exact Machine.foldlM_stuck (P := Held) (fun x subscriber x' hx heq => hx.notify heq)
    ⟨.fixAcceptor, h.subscribed, fun x hx => notify_held hx⟩ hreports

lemma Free.onExecReport (h : x.Free) : ∃ x', x.onExecReport px event = some x' ∧ x'.Free := by
  have hreports : ({ x with oeg := { x.oeg with reports := x.oeg.reports ++ [event] } } :
      Exchange).Free := ⟨h.sessionMutex, h.subscribed⟩
  exact Machine.foldlM_returns (P := Free) (fun x subscriber hx => hx.notify subscriber) hreports

lemma Held.deliver (h : x.Held) {out : MECoreOutput} (hx : deliver px x out = some x') :
    x'.Held := by
  cases out with
  | execReport event => exact absurd (hx.symm.trans (onExecReport_held h)) (by simp)
  | refusal event => exact absurd (hx.symm.trans (onExecReport_held h)) (by simp)
  | _ =>
    cases hx
    exact ⟨h.sessionMutex, h.subscribed⟩

lemma Free.deliver (h : x.Free) (out : MECoreOutput) :
    ∃ x', deliver px x out = some x' ∧ x'.Free := by
  cases out with
  | execReport event => exact h.onExecReport
  | refusal event => exact h.onExecReport
  | _ => exact ⟨_, rfl, h.sessionMutex, h.subscribed⟩

/-- A request made while the lock is held gets stuck in its first report, if it gets as far as a
matching core. -/
lemma submit_held (h : x.Held) (event : MECoreEvent) : x.submit px event
    = if x.books.lookup event.symbolIdx = none then some x else none := by
  rw [submit]
  cases hcore : x.books.lookup event.symbolIdx with
  | none => rfl
  | some core =>
    simp only [reduceCtorEq, if_false]
    obtain ⟨ev, hev⟩ := core.exists_report (OEGActor.forward event)
    refine Machine.foldlM_stuck (P := Held) (fun x out x' hx heq => hx.deliver heq) ?_
      ⟨h.sessionMutex, h.subscribed⟩
    rcases hev with hev | hev
    · exact ⟨_, hev, fun x hx => onExecReport_held hx⟩
    · exact ⟨_, hev, fun x hx => onExecReport_held hx⟩

lemma Free.submit (px : PriceText) (h : x.Free) (event : MECoreEvent) :
    ∃ x', x.submit px event = some x' ∧ x'.Free := by
  rw [Exchange.submit]
  cases hcore : x.books.lookup event.symbolIdx with
  | none => exact ⟨x, rfl, h⟩
  | some core =>
    exact Machine.foldlM_returns (P := Free) (fun x out hx => hx.deliver out)
      ⟨h.sessionMutex, h.subscribed⟩

/-! ### Messages that reach a book -/

/-- NewOrderSingle, OrderCancelRequest and OrderCancelReplaceRequest. -/
def orderMessages : List (List Char) := ["D".toList, "F".toList, "G".toList]

/-- The message does not reach a matching core: no receive loop reads it, it is not one of the
three requests, or its symbol is not mapped. -/
def Harmless : Option Exchange → ExchangeInput → Prop
  | some x, .message sessionId msg =>
    ∀ sess, x.fix.sessions.lookup sessionId = some sess → sess.receiving = true →
      getTag msg 35 [] ∈ orderMessages →
      x.books.lookup (symbolFromString (getTag msg 55 [])) = none
  | _, _ => True

lemma request_held (px : PriceText) (h : x.Held) (event : MECoreEvent) {msgType : List Char}
    (htype : msgType ∈ orderMessages) :
    (x.submit px event = none ∧
        ¬(msgType ∈ orderMessages → x.books.lookup event.symbolIdx = none)) ∨
      ∃ x', x.submit px event = some x' ∧
        x'.oeg.execReportSubscribers = x.oeg.execReportSubscribers ∧
        (msgType ∈ orderMessages → x.books.lookup event.symbolIdx = none) := by
  rw [submit_held h]
  by_cases hnone : x.books.lookup event.symbolIdx = none
  · exact Or.inr ⟨x, if_pos hnone, rfl, fun _ => hnone⟩
  · exact Or.inl ⟨if_neg hnone, fun hall => hnone (hall htype)⟩

/-- With the lock held, handling a message gets stuck exactly if it makes a request for a symbol
with a book. -/
lemma handleMessage_held (px : PriceText) (h : x.Held) (sess : FIXSession) (msg : TagMap) :
    (handleMessage px x sess msg = none ∧ ¬(getTag msg 35 [] ∈ orderMessages →
        x.books.lookup (symbolFromString (getTag msg 55 [])) = none)) ∨
      ∃ x', handleMessage px x sess msg = some x' ∧
        x'.oeg.execReportSubscribers = x.oeg.execReportSubscribers ∧
        (getTag msg 35 [] ∈ orderMessages →
          x.books.lookup (symbolFromString (getTag msg 55 [])) = none) := by
  unfold handleMessage
  generalize getTag msg 35 [] = msgType
  simp only
  split
  · rename_i hA
    exact Or.inr ⟨_, rfl, rfl, fun hmem => absurd (hA ▸ hmem) (by decide)⟩
  split
  · rename_i h5
    exact Or.inr ⟨_, rfl, rfl, fun hmem => absurd (h5 ▸ hmem) (by decide)⟩
  split
  · rename_i h0
    exact Or.inr ⟨_, rfl, rfl, fun hmem => absurd (h0 ▸ hmem) (by decide)⟩
  split
  · rename_i hD
    exact request_held px h (.newOrder (handleNewOrderSingle px sess msg)) (by rw [hD]; decide)
  split
  · rename_i hF
    exact request_held px h (.cancelOrder (handleCancelRequest sess msg)) (by rw [hF]; decide)
  split
  · rename_i hG
    exact request_held px h (.modifyOrder (handleCancelReplaceRequest px sess msg))
      (by rw [hG]; decide)
  · rename_i hD hF hG
    refine Or.inr ⟨x, rfl, rfl, fun hmem => ?_⟩
    simp only [orderMessages, List.mem_cons, List.not_mem_nil, or_false, hD, hF, hG] at hmem

/-- A message that returns leaves the lock free, and it returns exactly if it is harmless. -/
lemma Free.recvMessage (px : PriceText) (h : x.Free) (sessionId : ℕ) (msg : TagMap) :
    (x.recvMessage px sessionId msg = none ∧ ¬Harmless (some x) (.message sessionId msg)) ∨
      ∃ x', x.recvMessage px sessionId msg = some x' ∧ x'.Free ∧
        Harmless (some x) (.message sessionId msg) := by
  have hlock : x.fix.lock = some { x.fix with sessionMutex := true } := by
    simp [FIXAcceptorActor.lock, h.sessionMutex]
  rw [Exchange.recvMessage]
  cases hsess : x.fix.sessions.lookup sessionId with
  | none =>
    refine Or.inr ⟨x, rfl, h, ?_⟩
    intro sess hlookup
    cases hsess.symm.trans hlookup
  | some sess =>
    by_cases hreceiving : sess.receiving = true
    · have hheld : ({ x with fix := { x.fix with sessionMutex := true } } : Exchange).Held :=
        ⟨rfl, h.subscribed⟩
      simp only [hreceiving, if_true, hlock, Option.bind_some]
      rcases handleMessage_held px hheld sess msg with ⟨hx, hmapped⟩ | ⟨x', hx, hsub, hnone⟩
      · refine Or.inl ⟨by rw [hx]; rfl, ?_⟩
        intro hharm
        exact hmapped (hharm sess hsess hreceiving)
      · refine Or.inr ⟨_, by rw [hx]; rfl, ⟨rfl, ?_⟩, fun _ _ _ => hnone⟩
        show Subscriber.fixAcceptor ∈ x'.oeg.execReportSubscribers
        rw [hsub]
        exact h.subscribed
    · refine Or.inr ⟨x, if_neg hreceiving, h, ?_⟩
      intro s hlookup hs
      cases hsess.symm.trans hlookup
      exact absurd hs hreceiving

/-- An input that returns leaves the lock free, and it returns exactly if it is harmless. -/
lemma Free.handle (px : PriceText) (h : x.Free) (input : ExchangeInput) :
    (x.handle px input = none ∧ ¬Harmless (some x) input) ∨
      ∃ x', x.handle px input = some x' ∧ x'.Free ∧ Harmless (some x) input := by
  cases input with
  | accept =>
    simp only [Exchange.handle, FIXAcceptorActor.accept, FIXAcceptorActor.lock, h.sessionMutex,
      Bool.false_eq_true, if_false, Option.map_some]
    exact Or.inr ⟨_, rfl, ⟨rfl, h.subscribed⟩, trivial⟩
  | message sessionId msg => exact h.recvMessage px sessionId msg
  | close sessionId =>
    simp only [Exchange.handle, FIXAcceptorActor.close, FIXAcceptorActor.lock, h.sessionMutex,
      Bool.false_eq_true, if_false, Option.map_some]
    exact Or.inr ⟨_, rfl, ⟨rfl, h.subscribed⟩, trivial⟩
  | submit event =>
    obtain ⟨x', hx, hfree⟩ := h.submit px event
    exact Or.inr ⟨x', hx, hfree, trivial⟩

lemma main_free : main.Free := ⟨rfl, List.mem_cons_self⟩

/-- In every run of the exchange, the handling of every input returns exactly if no message reaches
a matching core. -/
theorem run_returns_iff (px : PriceText) (inputs : List ExchangeInput) :
    Machine.Throughout (step px) (fun x => x.isSome = true) (some main) inputs ↔
      Machine.Along (step px) Harmless (some main) inputs := by
  refine Machine.throughout_iff_along (I := fun x => ∀ y, x = some y → y.Free)
    (fun x input hx y hy => ?_) (fun x input hx hsome => ?_) (fun y hy => ?_) rfl
  · obtain ⟨z, rfl, hz⟩ := Option.bind_eq_some_iff.mp hy
    rcases (hx z rfl).handle px input with ⟨hnone, -⟩ | ⟨y', hy', hfree, -⟩
    · exact absurd (hz.symm.trans hnone) (by simp)
    · cases hz.symm.trans hy'
      exact hfree
  · obtain ⟨z, rfl⟩ := Option.isSome_iff_exists.mp hsome
    show (z.handle px input).isSome = true ↔ _
    rcases (hx z rfl).handle px input with ⟨hnone, hharm⟩ | ⟨y', hy', -, hharm⟩
    · rw [hnone]
      exact iff_of_false (by simp) hharm
    · rw [hy']
      exact iff_of_true rfl hharm
  · cases hy
    exact main_free

/-- A client logs on and sends an order to buy AAPL at 10. -/
theorem not_returns_newOrderSingle : ¬∀ (px : PriceText) (inputs : List ExchangeInput),
    Machine.Throughout (step px) (fun x => x.isSome = true) (some main) inputs := by
  intro h
  -- whole prices, scaled by `PRICE_SCALE`
  have hlast := (h
    ⟨fun s => CString.strtoull s * 10 ^ 8, fun p => CString.toString (p.toNat / 10 ^ 8)⟩
    [.accept,
      .message 100 [⟨35, "A".toList⟩, ⟨49, "CLIENT".toList⟩].toFinmap,
      .message 100 [⟨35, "D".toList⟩, ⟨11, "1".toList⟩, ⟨55, "AAPL".toList⟩, ⟨54, "1".toList⟩,
        ⟨38, "5".toList⟩, ⟨40, "2".toList⟩, ⟨44, "10".toList⟩].toFinmap]).2.2.2
  simp only [Machine.Throughout] at hlast
  exact absurd hlast (by decide +kernel)

end Exchange

end EuNEx
