import EuNEx.Actors.Events
import EuNEx.Book.Refinement

/-!
# The matching core

`actors/MECoreActor.cpp`: one book behind a mailbox. Handling an event changes the book and pushes
events to the gateway (`oePipe_`), to market data (`mdPipe_`) and, if there is one, to the clearing
house (`chPipe_`). The copies that go to Kafka are left out.
-/

namespace EuNEx

structure MECoreActor where
  book : Book
  hasClearingHouse : Bool

inductive MECoreEvent where
  | newOrder (event : NewOrderEvent)
  | cancelOrder (event : CancelOrderEvent)
  | modifyOrder (event : ModifyOrderEvent)
deriving DecidableEq, Repr

/-- What the actor pushes, in order. An `execReport` and a `refusal` are both an `ExecReportEvent`
to the gateway: a refusal answers a cancel or a modify that found no order. `entered` is history:
the order has received its id, under the session. -/
inductive MECoreOutput where
  | execReport (event : ExecReportEvent)
  | refusal (event : ExecReportEvent)
  | marketTrade (trade : Trade)
  | clearingTrade (trade : Trade)
  | bookUpdate (event : BookUpdateEvent)
  | entered (orderId sessionId : ℕ)
deriving DecidableEq, Repr

namespace MECoreActor

variable (a : MECoreActor)

/-- `MECoreActor(symbolIdx, ...)`. -/
def new (symbolIdx : ℕ) (hasClearingHouse : Bool) : MECoreActor :=
  ⟨Book.new symbolIdx, hasClearingHouse⟩

/-- The callbacks `onTrade` and `onExec`, which capture the event being handled. -/
def callback (sessionId : ℕ) : BookEvent → List MECoreOutput
  | .entry order => [.entered order.orderId order.sessionId]
  | .trade trade => .marketTrade trade :: if a.hasClearingHouse then [.clearingTrade trade] else []
  | .exec report => [.execReport ⟨report, sessionId⟩]
  | .exit _ => []

def publishBookUpdate : BookUpdateEvent where
  symbolIdx := a.book.symbolIdx
  bids := (a.book.getBids 10).map fun level => ⟨level.price, level.totalQty⟩
  asks := (a.book.getAsks 10).map fun level => ⟨level.price, level.totalQty⟩

/-- Enter an order, then trigger the stops that the last price reaches. -/
def enterOrder (order : Order) : Outcome :=
  let m := a.book.newOrder order
  if 0 < m.book.stopOrderCount ∧ m.book.lastTradePrice ≠ 0 then
    let triggered := m.book.triggerStopOrders m.book.lastTradePrice
    ⟨triggered.book, m.log ++ triggered.log⟩
  else m.toOutcome

def onNewOrder (event : NewOrderEvent) : MECoreActor × List MECoreOutput :=
  let out := a.enterOrder event.order
  let a' := { a with book := out.book }
  (a', out.log.flatMap (a.callback event.sessionId) ++ [.bookUpdate a'.publishBookUpdate])

/-- The report on a request that found no order. -/
def reject (orderId origClOrdId : ℕ) : ExecutionReport :=
  ⟨orderId, origClOrdId, .rejected, 0, 0, 0, 0, 0⟩

def onCancelOrder (event : CancelOrderEvent) : MECoreActor × List MECoreOutput :=
  match a.book.cancelOrder event.orderId with
  | some c =>
    let a' := { a with book := c.book }
    (a', [.execReport ⟨c.report, event.sessionId⟩, .bookUpdate a'.publishBookUpdate])
  | none => (a, [.refusal ⟨reject event.orderId event.origClOrdId, event.sessionId⟩])

def onModifyOrder (event : ModifyOrderEvent) : MECoreActor × List MECoreOutput :=
  match a.book.modifyOrder event.orderId event.newPrice event.newQuantity with
  | some (out, report) =>
    let a' := { a with book := out.book }
    (a', [.entered report.orderId event.sessionId, .execReport ⟨report, event.sessionId⟩,
      .bookUpdate a'.publishBookUpdate])
  | none => (a, [.refusal ⟨reject event.orderId event.origClOrdId, event.sessionId⟩])

def step : MECoreEvent → MECoreActor × List MECoreOutput
  | .newOrder event => a.onNewOrder event
  | .cancelOrder event => a.onCancelOrder event
  | .modifyOrder event => a.onModifyOrder event

/-- The actor after a sequence of events, and all it has pushed. -/
abbrev run (symbolIdx : ℕ) (hasClearingHouse : Bool) (events : List MECoreEvent) :
    MECoreActor × List MECoreOutput :=
  Machine.run step (new symbolIdx hasClearingHouse) events

end MECoreActor

/-! ### Reading the outputs -/

/-- The trades pushed to market data. -/
def marketTrades (h : List MECoreOutput) : List Trade :=
  h.filterMap fun
    | .marketTrade trade => some trade
    | _ => none

/-- The ids of the orders that entered. -/
def enteredIds (h : List MECoreOutput) : List ℕ :=
  h.filterMap fun
    | .entered orderId _ => some orderId
    | _ => none

section

variable {h h' : List MECoreOutput} {t : Trade} {id : ℕ}

@[simp] lemma marketTrades_append :
    marketTrades (h ++ h') = marketTrades h ++ marketTrades h' := by simp [marketTrades]

@[simp] lemma enteredIds_append : enteredIds (h ++ h') = enteredIds h ++ enteredIds h' := by
  simp [enteredIds]

lemma mem_enteredIds : id ∈ enteredIds h ↔ ∃ sessionId, .entered id sessionId ∈ h := by
  simp only [enteredIds, List.mem_filterMap]
  constructor
  · rintro ⟨x, hx, hid⟩
    cases x with
    | entered orderId sessionId =>
      cases hid
      exact ⟨sessionId, hx⟩
    | _ => cases hid
  · rintro ⟨sessionId, hx⟩
    exact ⟨_, hx, rfl⟩

end

namespace MECoreActor

open Book

variable {a : MECoreActor} {h : List MECoreOutput} {log : List BookEvent} {sessionId : ℕ}

lemma marketTrades_callback : marketTrades (log.flatMap (a.callback sessionId)) = trades log := by
  induction log with
  | nil => rfl
  | cons ev log ih =>
    rw [List.flatMap_cons, marketTrades_append, ih, ← List.singleton_append, trades_append]
    cases ev with
    | trade t => by_cases hc : a.hasClearingHouse <;> simp [callback, hc, marketTrades]
    | _ => rfl

lemma enteredIds_callback : enteredIds (log.flatMap (a.callback sessionId)) = entryIds log := by
  induction log with
  | nil => rfl
  | cons ev log ih =>
    rw [List.flatMap_cons, enteredIds_append, ih, ← List.singleton_append, entryIds_append]
    cases ev with
    | trade t => by_cases hc : a.hasClearingHouse <;> simp [callback, hc, enteredIds]
    | _ => rfl

/-! ### What handling an event pushes -/

lemma entered_mem_callback {id s : ℕ} : .entered id s ∈ log.flatMap (a.callback sessionId) ↔
    ∃ o, .entry o ∈ log ∧ o.orderId = id ∧ o.sessionId = s := by
  simp only [List.mem_flatMap]
  constructor
  · rintro ⟨ev, hev, hmem⟩
    cases ev with
    | entry o =>
      simp only [callback, List.mem_singleton, MECoreOutput.entered.injEq] at hmem
      exact ⟨o, hev, hmem.1.symm, hmem.2.symm⟩
    | trade t => by_cases hc : a.hasClearingHouse <;> simp [callback, hc] at hmem
    | exec r => simp [callback] at hmem
    | exit o => simp [callback] at hmem
  · rintro ⟨o, ho, rfl, rfl⟩
    exact ⟨_, ho, by simp [callback]⟩

lemma execReport_mem_callback {event : ExecReportEvent} :
    .execReport event ∈ log.flatMap (a.callback sessionId) ↔
      .exec event.toExecutionReport ∈ log ∧ event.sessionId = sessionId := by
  simp only [List.mem_flatMap]
  constructor
  · rintro ⟨ev, hev, hmem⟩
    cases ev with
    | exec r =>
      obtain rfl := MECoreOutput.execReport.inj (List.mem_singleton.mp hmem)
      exact ⟨hev, rfl⟩
    | trade t => by_cases hc : a.hasClearingHouse <;> simp [callback, hc] at hmem
    | entry o => simp [callback] at hmem
    | exit o => simp [callback] at hmem
  · rintro ⟨hev, rfl⟩
    exact ⟨_, hev, List.mem_singleton_self _⟩

/-- The stops are triggered if there are any, and there is a price to trigger them at. -/
lemma enterOrder_cases (a : MECoreActor) (order : Order) :
    ((0 < (a.book.newOrder order).book.stopOrderCount ∧
        (a.book.newOrder order).book.lastTradePrice ≠ 0) ∧
      a.enterOrder order = ⟨((a.book.newOrder order).book.triggerStopOrders
          (a.book.newOrder order).book.lastTradePrice).book,
        (a.book.newOrder order).log ++ ((a.book.newOrder order).book.triggerStopOrders
          (a.book.newOrder order).book.lastTradePrice).log⟩) ∨
    (¬(0 < (a.book.newOrder order).book.stopOrderCount ∧
        (a.book.newOrder order).book.lastTradePrice ≠ 0) ∧
      a.enterOrder order = (a.book.newOrder order).toOutcome) := by
  by_cases hfires : 0 < (a.book.newOrder order).book.stopOrderCount ∧
      (a.book.newOrder order).book.lastTradePrice ≠ 0
  · exact Or.inl ⟨hfires, if_pos hfires⟩
  · exact Or.inr ⟨hfires, if_neg hfires⟩

lemma outputs_newOrder (event : NewOrderEvent) : (a.step (.newOrder event)).2
    = (a.enterOrder event.order).log.flatMap (a.callback event.sessionId)
      ++ [.bookUpdate (a.step (.newOrder event)).1.publishBookUpdate] := rfl

lemma step_cancelOrder_none {event : CancelOrderEvent}
    (hc : a.book.cancelOrder event.orderId = none) : a.step (.cancelOrder event)
      = (a, [.refusal ⟨reject event.orderId event.origClOrdId, event.sessionId⟩]) := by
  simp [step, onCancelOrder, hc]

lemma step_cancelOrder_some {event : CancelOrderEvent} {c : Cancel}
    (hc : a.book.cancelOrder event.orderId = some c) : a.step (.cancelOrder event)
      = ({ a with book := c.book }, [.execReport ⟨c.report, event.sessionId⟩,
          .bookUpdate { a with book := c.book : MECoreActor }.publishBookUpdate]) := by
  simp [step, onCancelOrder, hc]

lemma step_modifyOrder_none {event : ModifyOrderEvent}
    (hc : a.book.cancelOrder event.orderId = none) : a.step (.modifyOrder event)
      = (a, [.refusal ⟨reject event.orderId event.origClOrdId, event.sessionId⟩]) := by
  simp [step, onModifyOrder, modifyOrder, hc]

lemma step_modifyOrder_some {event : ModifyOrderEvent} {c : Cancel}
    (hc : a.book.cancelOrder event.orderId = some c) :
    ∃ r, r.orderId = c.book.nextOrderId ∧ a.step (.modifyOrder event)
      = ({ a with book := (c.replaced event.newPrice event.newQuantity).book },
          [.entered r.orderId event.sessionId, .execReport ⟨r, event.sessionId⟩,
            .bookUpdate { a with book := (c.replaced event.newPrice event.newQuantity).book :
              MECoreActor }.publishBookUpdate]) := by
  simp only [step, onModifyOrder, modifyOrder, hc, Option.map_some]
  exact ⟨_, rfl, rfl⟩

/-! ### The invariant -/

/-- The book is sound, and the outputs tell of its history. -/
def Sound (a : MECoreActor) (h : List MECoreOutput) : Prop :=
  ∃ hist, a.book.Sound hist ∧ marketTrades h = trades hist ∧ enteredIds h = entryIds hist

lemma Sound.new (symbolIdx : ℕ) (hasClearingHouse : Bool) :
    (new symbolIdx hasClearingHouse).Sound [] :=
  ⟨[], Book.Sound.new symbolIdx, rfl, rfl⟩

lemma sound_enterOrder {hist : List BookEvent} (hb : a.book.Sound hist) (order : Order) :
    (a.enterOrder order).Sound hist := by
  have hnew := hb.newOrder order
  rcases a.enterOrder_cases order with ⟨-, heq⟩ | ⟨-, heq⟩
  · have htrigger := Book.Sound.triggerStopOrders hnew (a.book.newOrder order).book.lastTradePrice
    rw [heq]
    simpa only [Outcome.Sound, List.append_assoc] using htrigger
  · rw [heq]
    exact hnew

/-- Handling an event keeps the invariant. -/
theorem Sound.step (hs : a.Sound h) (event : MECoreEvent) :
    (a.step event).1.Sound (h ++ (a.step event).2) := by
  obtain ⟨hist, hb, htrades, hids⟩ := hs
  cases event with
  | newOrder event =>
    refine ⟨hist ++ (a.enterOrder event.order).log, sound_enterOrder hb event.order, ?_, ?_⟩
    · rw [marketTrades_append, htrades, outputs_newOrder, marketTrades_append,
        marketTrades_callback, trades_append]
      exact congrArg _ (List.append_nil _)
    · rw [enteredIds_append, hids, outputs_newOrder, enteredIds_append, enteredIds_callback,
        entryIds_append]
      exact congrArg _ (List.append_nil _)
  | cancelOrder event =>
    cases hc : a.book.cancelOrder event.orderId with
    | none =>
      rw [step_cancelOrder_none hc]
      exact ⟨hist, hb, by rw [marketTrades_append, htrades]; exact List.append_nil _,
        by rw [enteredIds_append, hids]; exact List.append_nil _⟩
    | some c =>
      have hsound := hb.cancel (removes_of_cancelOrder hb.shape hc)
      rw [step_cancelOrder_some hc]
      refine ⟨_, hsound, ?_, ?_⟩
      · rw [marketTrades_append, trades_append, htrades]
        rfl
      · rw [enteredIds_append, entryIds_append, hids]
        rfl
  | modifyOrder event =>
    cases hc : a.book.cancelOrder event.orderId with
    | none =>
      rw [step_modifyOrder_none hc]
      exact ⟨hist, hb, by rw [marketTrades_append, htrades]; exact List.append_nil _,
        by rw [enteredIds_append, hids]; exact List.append_nil _⟩
    | some c =>
      have hrem := removes_of_cancelOrder hb.shape hc
      have hsound := hb.replaced hrem event.newPrice event.newQuantity
      obtain ⟨r, hid, hstep⟩ := step_modifyOrder_some hc
      rw [hstep]
      refine ⟨_, hsound, ?_, ?_⟩
      · rw [marketTrades_append, trades_append, htrades]
        rfl
      · rw [enteredIds_append, entryIds_append, hids, hid]
        rfl

/-- A new order is told its id. -/
lemma exists_report_newOrder (a : MECoreActor) (event : NewOrderEvent) :
    ∃ ev, .execReport ev ∈ (a.step (.newOrder event)).2 ∧ ev.orderId = a.book.nextOrderId := by
  obtain ⟨r, hr, hid⟩ := newOrder_told a.book event.order
  refine ⟨⟨r, event.sessionId⟩, ?_, hid⟩
  rw [outputs_newOrder, List.mem_append, execReport_mem_callback]
  refine Or.inl ⟨?_, rfl⟩
  rcases a.enterOrder_cases event.order with ⟨-, heq⟩ | ⟨-, heq⟩
  · rw [heq]
    exact List.mem_append_left _ hr
  · rw [heq]
    exact hr

/-- Handling an event pushes at least one report to the gateway. -/
lemma exists_report (a : MECoreActor) (event : MECoreEvent) :
    ∃ ev, .execReport ev ∈ (a.step event).2 ∨ .refusal ev ∈ (a.step event).2 := by
  cases event with
  | newOrder event =>
    obtain ⟨ev, hev, -⟩ := a.exists_report_newOrder event
    exact ⟨ev, Or.inl hev⟩
  | cancelOrder event =>
    cases hc : a.book.cancelOrder event.orderId with
    | none =>
      rw [step_cancelOrder_none hc]
      exact ⟨_, Or.inr (List.mem_singleton_self _)⟩
    | some c =>
      rw [step_cancelOrder_some hc]
      exact ⟨_, Or.inl List.mem_cons_self⟩
  | modifyOrder event =>
    cases hc : a.book.cancelOrder event.orderId with
    | none =>
      rw [step_modifyOrder_none hc]
      exact ⟨_, Or.inr (List.mem_singleton_self _)⟩
    | some c =>
      obtain ⟨r, -, hstep⟩ := step_modifyOrder_some hc
      rw [hstep]
      exact ⟨⟨r, event.sessionId⟩, Or.inl (by simp)⟩

/-! ### The symbol of the book -/

lemma symbolIdx_enterConverted {hist : List BookEvent} {out : Outcome} (h : out.Sound hist)
    (stops : List Order) : (enterConverted out stops).book.symbolIdx = out.book.symbolIdx ∧
      ∀ t, .trade t ∈ (enterConverted out stops).log →
        .trade t ∈ out.log ∨ t.symbolIdx = out.book.symbolIdx := by
  induction stops generalizing out with
  | nil => exact ⟨rfl, fun t ht => Or.inl ht⟩
  | cons stop stops ih =>
    have hsym : (convert out stop).book.symbolIdx = out.book.symbolIdx :=
      (newOrder_frame h.shape.levels).2.2
    obtain ⟨hbook, htrades⟩ := ih (h.convert stop)
    refine ⟨hbook.trans hsym, fun t ht => ?_⟩
    rcases htrades t ht with ht | ht
    · rcases List.mem_append.mp ht with ht | ht
      · exact Or.inl ht
      · exact Or.inr (symbolIdx_newOrder h.shape.levels ht)
    · exact Or.inr (ht.trans hsym)

lemma symbolIdx_enterOrder {hist : List BookEvent} (hb : a.book.Sound hist) (order : Order) :
    (a.enterOrder order).book.symbolIdx = a.book.symbolIdx ∧
      ∀ t, .trade t ∈ (a.enterOrder order).log → t.symbolIdx = a.book.symbolIdx := by
  have hOK := hb.shape.levels
  have hsym : (a.book.newOrder order).book.symbolIdx = a.book.symbolIdx := (newOrder_frame hOK).2.2
  have hnew : (a.book.newOrder order).toOutcome.Sound hist := hb.newOrder order
  rcases a.enterOrder_cases order with ⟨-, heq⟩ | ⟨-, heq⟩ <;> rw [heq]
  · obtain ⟨hbook, htrades⟩ := symbolIdx_enterConverted
      (Book.Sound.withdrawTriggered hnew (a.book.newOrder order).book.lastTradePrice)
      ((a.book.newOrder order).book.triggeredStops (a.book.newOrder order).book.lastTradePrice)
    refine ⟨hbook.trans hsym, fun t ht => ?_⟩
    rcases List.mem_append.mp ht with ht | ht
    · exact symbolIdx_newOrder hOK ht
    · rcases htrades t ht with ht | ht
      · simp [withdrawTriggered] at ht
      · exact ht.trans hsym
  · exact ⟨hsym, fun t ht => symbolIdx_newOrder hOK ht⟩

/-- The core stays with its symbol, and trades in no other. -/
theorem symbolIdx_step (hs : a.Sound h) (event : MECoreEvent) :
    (a.step event).1.book.symbolIdx = a.book.symbolIdx ∧
      ∀ t ∈ marketTrades (a.step event).2, t.symbolIdx = a.book.symbolIdx := by
  obtain ⟨hist, hb, -, -⟩ := hs
  cases event with
  | newOrder event =>
    obtain ⟨hbook, htrades⟩ := symbolIdx_enterOrder hb event.order
    refine ⟨hbook, fun t ht => htrades t (mem_trades.mp ?_)⟩
    rw [outputs_newOrder, marketTrades_append, marketTrades_callback, List.mem_append] at ht
    rcases ht with ht | ht
    · exact ht
    · cases ht
  | cancelOrder event =>
    cases hc : a.book.cancelOrder event.orderId with
    | none =>
      rw [step_cancelOrder_none hc]
      exact ⟨rfl, by simp [marketTrades]⟩
    | some c =>
      rw [step_cancelOrder_some hc]
      exact ⟨(removes_of_cancelOrder hb.shape hc).symbolIdx, by simp [marketTrades]⟩
  | modifyOrder event =>
    cases hc : a.book.cancelOrder event.orderId with
    | none =>
      rw [step_modifyOrder_none hc]
      exact ⟨rfl, by simp [marketTrades]⟩
    | some c =>
      obtain ⟨r, -, hstep⟩ := step_modifyOrder_some hc
      rw [hstep]
      refine ⟨?_, by simp [marketTrades]⟩
      exact insertResting_symbolIdx.trans (removes_of_cancelOrder hb.shape hc).symbolIdx

/-- An event is refused, or handling it ends with a book update. -/
lemma step_cases (a : MECoreActor) (event : MECoreEvent) :
    (∃ r, a.step event = (a, [.refusal r])) ∨
      ∃ pre, (∀ u, .bookUpdate u ∉ pre) ∧
        (a.step event).2 = pre ++ [.bookUpdate (a.step event).1.publishBookUpdate] := by
  cases event with
  | newOrder event =>
    refine Or.inr ⟨_, fun u hu => ?_, outputs_newOrder event⟩
    obtain ⟨ev, -, hmem⟩ := List.mem_flatMap.mp hu
    cases ev with
    | trade t => by_cases hc : a.hasClearingHouse <;> simp [callback, hc] at hmem
    | entry o => simp [callback] at hmem
    | exec r => simp [callback] at hmem
    | exit o => simp [callback] at hmem
  | cancelOrder event =>
    cases hc : a.book.cancelOrder event.orderId with
    | none => exact Or.inl ⟨_, step_cancelOrder_none hc⟩
    | some c =>
      rw [step_cancelOrder_some hc]
      exact Or.inr ⟨[_], by simp, rfl⟩
  | modifyOrder event =>
    cases hc : a.book.cancelOrder event.orderId with
    | none => exact Or.inl ⟨_, step_modifyOrder_none hc⟩
    | some c =>
      obtain ⟨r, -, hstep⟩ := step_modifyOrder_some hc
      rw [hstep]
      exact Or.inr ⟨[_, _], by simp, rfl⟩

end MECoreActor

end EuNEx
