import EuNEx.Actors.MECore
import EuNEx.Book.Resting

/-!
# When stops are triggered

The matching core looks at its stops once for each new order, with the price of the last trade. A
stop that is reached by an earlier fill of the same order only, or by a trade of a stop that is
converted after the look, stays parked.
-/

namespace EuNEx

namespace Book

variable {b : Book} {hist : List BookEvent} {order : Order}

/-- The prices at which a new order is filled. -/
def fillPrices (b : Book) (order : Order) : List ℤ := (b.filledBy order).map Order.price

/-- The prices at which stops are filled that are converted one after the other. -/
def cascadePrices : Book → List Order → List ℤ
  | _, [] => []
  | b, stop :: stops => b.fillPrices (converted stop) ++
      cascadePrices (b.newOrder (converted stop)).book stops

/-- The last price once the order is entered. -/
def priceAfter (b : Book) (order : Order) : ℤ := (b.fillPrices order).getLast?.getD b.lastTradePrice

/-- The stops that are parked once the order is entered. -/
def parkedAfter (b : Book) (order : Order) : List Order :=
  b.stopOrders ++ if order.ordType.isStop then [b.entered order] else []

lemma prices_newOrder (hOK : ∀ s, (b.levels s).OK) (order : Order) :
    (trades (b.newOrder order).log).map Trade.price = b.fillPrices order := by
  have hfilled := newOrder_filled hOK order
  rw [fillPrices]
  generalize b.filledBy order = orders at hfilled ⊢
  generalize trades (b.newOrder order).log = ts at hfilled ⊢
  induction hfilled with
  | nil => rfl
  | cons h _ ih => rw [List.map_cons, List.map_cons, h.price, ih]

lemma lastTradePrice_newOrder (hb : b.Sound hist) (order : Order) :
    (b.newOrder order).book.lastTradePrice = b.priceAfter order := by
  have hold : b.lastTradePrice = lastPrice hist := hb.laws.provenance.lastTradePrice
  have hnew : (b.newOrder order).book.lastTradePrice = lastPrice (hist ++ (b.newOrder order).log) :=
    (hb.newOrder order).laws.provenance.lastTradePrice
  have hprices := prices_newOrder hb.shape.levels order
  rw [hnew, priceAfter, ← hprices, hold, lastPrice, lastPrice, trades_append, List.getLast?_append,
    List.getLast?_map]
  cases (trades (b.newOrder order).log).getLast? <;> rfl

lemma stopOrders_newOrder (hOK : ∀ s, (b.levels s).OK) (order : Order) :
    (b.newOrder order).book.stopOrders = b.parkedAfter order := by
  rw [parkedAfter]
  by_cases hstop : order.ordType.isStop = true
  · rw [newOrder_stop hstop, if_pos hstop]
    rfl
  · rw [if_neg hstop, List.append_nil]
    exact stopOrders_newOrder_of_executable hOK (by simpa using hstop)

/-- Converted stops are no stops. -/
lemma stopOrders_enterConverted {out : Outcome} {stops : List Order} (hout : out.Sound hist) :
    (enterConverted out stops).book.stopOrders = out.book.stopOrders := by
  induction stops generalizing out with
  | nil => rfl
  | cons stop stops ih =>
    rw [enterConverted_cons, ih (hout.convert stop)]
    show (out.book.newOrder (converted stop)).book.stopOrders = _
    rw [stopOrders_newOrder hout.shape.levels, parkedAfter, converted_not_stop]
    simp

lemma prices_enterConverted {out : Outcome} {stops : List Order} (hout : out.Sound hist) :
    (trades (enterConverted out stops).log).map Trade.price
      = (trades out.log).map Trade.price ++ cascadePrices out.book stops := by
  induction stops generalizing out with
  | nil => simp [enterConverted, cascadePrices]
  | cons stop stops ih =>
    rw [enterConverted_cons, ih (hout.convert stop), cascadePrices, ← List.append_assoc]
    congr 1
    show (trades (out.log ++ (out.book.newOrder (converted stop)).log)).map Trade.price = _
    rw [trades_append, List.map_append, prices_newOrder hout.shape.levels]

end Book

/-! ### Trades since an order entered -/

/-- The trades after the entry of an order. -/
def tradesSince (id : ℕ) : List MECoreOutput → List Trade
  | [] => []
  | .entered orderId _ :: h => if orderId = id then marketTrades h else tradesSince id h
  | _ :: h => tradesSince id h

section

variable {id : ℕ} {h : List MECoreOutput}

lemma tradesSince_of_mem (hid : id ∈ enteredIds h) (h' : List MECoreOutput) :
    tradesSince id (h ++ h') = tradesSince id h ++ marketTrades h' := by
  induction h with
  | nil => cases hid
  | cons out h ih =>
    cases out with
    | entered orderId sessionId =>
      by_cases heq : orderId = id
      · simp [tradesSince, heq]
      · have hrest : id ∈ enteredIds h := by
          simpa [enteredIds, Ne.symm heq] using hid
        simpa [tradesSince, heq] using ih hrest
    | _ => exact ih hid

lemma tradesSince_of_not_mem (hid : id ∉ enteredIds h) (h' : List MECoreOutput) :
    tradesSince id (h ++ h') = tradesSince id h' := by
  induction h with
  | nil => rfl
  | cons out h ih =>
    cases out with
    | entered orderId sessionId =>
      have hne : ¬orderId = id := by
        rintro rfl
        exact hid (by simp [enteredIds])
      have hrest : id ∉ enteredIds h := fun hmem => hid (by simpa [enteredIds] using Or.inr hmem)
      simpa [tradesSince, hne] using ih hrest
    | _ => exact ih hid

end

namespace MECoreActor

open Book

variable {a : MECoreActor} {h : List MECoreOutput} {hist : List BookEvent}

/-- No trade since it was parked triggers a stop that is still parked. -/
def NoneMissed (a : MECoreActor) (h : List MECoreOutput) : Prop :=
  ∀ stop ∈ a.book.stopOrders, ∀ t ∈ tradesSince stop.orderId h, triggers t.price stop = false

/-- The prices at which the stops trade that are triggered after the order is entered. -/
def stopPrices (a : MECoreActor) (order : Order) : List ℤ :=
  let b := (a.book.newOrder order).book
  let price := a.book.priceAfter order
  if price = 0 then []
  else cascadePrices (b.withdrawTriggered price).book (b.triggeredStops price)

/-- Every stop that some fill of the event triggers is triggered by the last price after the order
of the event too, and there is such a price. -/
def LooksOnce (a : MECoreActor) : MECoreEvent → Prop
  | .newOrder event => ∀ stop ∈ a.book.parkedAfter event.order,
      ∀ price ∈ a.book.fillPrices event.order ++ a.stopPrices event.order,
        triggers price stop = true →
          a.book.priceAfter event.order ≠ 0 ∧ triggers (a.book.priceAfter event.order) stop = true
  | _ => True

/-- The stops that stay parked, and the prices of the event's trades. -/
lemma enterOrder_missed (hb : a.book.Sound hist) (order : Order) :
    (a.enterOrder order).book.stopOrders = (a.book.parkedAfter order).filter (fun stop =>
        a.book.priceAfter order = 0 || !triggers (a.book.priceAfter order) stop) ∧
      (trades (a.enterOrder order).log).map Trade.price
        = a.book.fillPrices order ++ a.stopPrices order := by
  have hOK := hb.shape.levels
  have hnew : (a.book.newOrder order).toOutcome.Sound hist := hb.newOrder order
  have hlast := lastTradePrice_newOrder hb order
  have hparked := stopOrders_newOrder hOK order
  have hprices := prices_newOrder hOK order
  rcases a.enterOrder_cases order with ⟨⟨-, hprice⟩, heq⟩ | ⟨hquiet, heq⟩
  · have hwithdraw := Book.Sound.withdrawTriggered hnew (a.book.newOrder order).book.lastTradePrice
    rw [heq]
    simp only [hlast] at hprice hwithdraw ⊢
    rw [triggerStopOrders_eq]
    constructor
    · rw [stopOrders_enterConverted hwithdraw]
      simp [withdrawTriggered, hparked, hprice]
    · have hnone : trades ((a.book.newOrder order).book.withdrawTriggered
          (a.book.priceAfter order)).log = [] := by
        simp [withdrawTriggered, trades, BookEvent.trade?, List.filterMap_eq_nil_iff]
      rw [trades_append, List.map_append, hprices, prices_enterConverted hwithdraw, hnone,
        stopPrices, if_neg hprice]
      rfl
  · rw [heq, hparked, hprices]
    rw [not_and_or, stopOrderCount, hparked, hlast, not_not] at hquiet
    rcases hquiet with hnone | hzero
    · have hnil : a.book.parkedAfter order = [] := by
        cases hp : a.book.parkedAfter order <;> simp_all
      simp [hnil, stopPrices, triggeredStops, hparked, cascadePrices]
    · simp [hzero, stopPrices]

lemma enterOrder_entry (a : MECoreActor) (hOK : ∀ s, (a.book.levels s).OK) (order : Order) :
    ∃ log, (a.enterOrder order).log = .entry (a.book.entered order) :: log := by
  obtain ⟨fills, last, hlog, -⟩ := newOrder_log hOK order
  rcases a.enterOrder_cases order with ⟨-, heq⟩ | ⟨-, heq⟩ <;> rw [heq]
  · exact ⟨_, by rw [hlog]; rfl⟩
  · exact ⟨_, hlog⟩

/-- The trades since a stop was parked are new ones, or it was parked before and they may be old
ones too. -/
lemma tradesSince_newOrder (hb : a.book.Sound hist) (hids : enteredIds h = entryIds hist)
    {event : NewOrderEvent} {stop : Order} (hstop : stop ∈ a.book.parkedAfter event.order) :
    tradesSince stop.orderId (h ++ (a.step (.newOrder event)).2)
        = marketTrades (a.step (.newOrder event)).2 ∨
      stop ∈ a.book.stopOrders ∧ tradesSince stop.orderId (h ++ (a.step (.newOrder event)).2)
        = tradesSince stop.orderId h ++ marketTrades (a.step (.newOrder event)).2 := by
  have hids' : enteredIds h = List.range' 1 (a.book.nextOrderId - 1) :=
    hids.trans hb.laws.ids.entryIds
  rcases List.mem_append.mp hstop with hold | hown
  · have hlive : stop ∈ a.book.live := mem_live.mpr (Or.inr hold)
    have hmem : stop.orderId ∈ enteredIds h := by
      rw [hids]
      exact hb.laws.ids.live_mem_entryIds hlive
    exact Or.inr ⟨hold, tradesSince_of_mem hmem _⟩
  · obtain ⟨hown, -⟩ : stop = a.book.entered event.order ∧ event.order.ordType.isStop = true := by
      split at hown
      · rename_i hs
        exact ⟨List.mem_singleton.mp hown, hs⟩
      · cases hown
    have hnew : a.book.nextOrderId ∉ enteredIds h := by
      rw [hids', List.mem_range'_1]
      omega
    obtain ⟨log, hlog⟩ := a.enterOrder_entry hb.shape.levels event.order
    rw [hown]
    apply Or.inl
    show tradesSince a.book.nextOrderId _ = _
    rw [tradesSince_of_not_mem hnew, outputs_newOrder, hlog, List.flatMap_cons]
    simp [callback, tradesSince, entered, marketTrades]

lemma missed_newOrder_iff (hs : a.Sound h) (hm : a.NoneMissed h) (event : NewOrderEvent) :
    (a.step (.newOrder event)).1.NoneMissed (h ++ (a.step (.newOrder event)).2) ↔
      a.LooksOnce (.newOrder event) := by
  obtain ⟨hist, hb, -, hids⟩ := hs
  obtain ⟨hstops, hprices⟩ := enterOrder_missed hb event.order
  have htrades : marketTrades (a.step (.newOrder event)).2
      = trades (a.enterOrder event.order).log := by
    rw [outputs_newOrder, marketTrades_append, marketTrades_callback]
    exact List.append_nil _
  have hsince : ∀ stop ∈ a.book.parkedAfter event.order,
      (∀ t ∈ tradesSince stop.orderId (h ++ (a.step (.newOrder event)).2),
        triggers t.price stop = false) ↔
      ∀ price ∈ a.book.fillPrices event.order ++ a.stopPrices event.order,
        triggers price stop = false := by
    intro stop hstop
    rw [← hprices, ← htrades, List.forall_mem_map]
    rcases tradesSince_newOrder hb hids hstop with heq | ⟨hold, heq⟩
    · rw [heq]
    · rw [heq, List.forall_mem_append, and_iff_right (hm stop hold)]
  have hafter : (a.step (.newOrder event)).1.book.stopOrders
      = (a.enterOrder event.order).book.stopOrders := rfl
  rw [NoneMissed]
  rw [hafter, hstops]
  constructor
  · intro hnone stop hstop price hprice htriggers
    by_contra hkept
    have hkept : stop ∈ (a.book.parkedAfter event.order).filter fun stop =>
        a.book.priceAfter event.order = 0 || !triggers (a.book.priceAfter event.order) stop := by
      rw [List.mem_filter]
      exact ⟨hstop, by simpa [or_iff_not_imp_left] using hkept⟩
    have hfalse := (hsince stop hstop).mp (hnone stop hkept) price hprice
    rw [htriggers] at hfalse
    cases hfalse
  · intro hlooks stop hstop
    obtain ⟨hstop, hkept⟩ := List.mem_filter.mp hstop
    refine (hsince stop hstop).mpr fun price hprice => ?_
    by_contra htriggers
    have hgone := hlooks stop hstop price hprice (by simpa using htriggers)
    simp [hgone.1, hgone.2] at hkept

/-- Where no stop comes in and nothing trades, nothing is missed. -/
lemma NoneMissed.of_subset {a' : MECoreActor} {outs : List MECoreOutput} (hs : a.Sound h)
    (hm : a.NoneMissed h) (hsub : ∀ stop ∈ a'.book.stopOrders, stop ∈ a.book.stopOrders)
    (hnone : marketTrades outs = []) : a'.NoneMissed (h ++ outs) := by
  obtain ⟨hist, hb, -, hids⟩ := hs
  intro stop hstop
  have hold := hsub stop hstop
  have hmem : stop.orderId ∈ enteredIds h := by
    rw [hids]
    exact hb.laws.ids.live_mem_entryIds (mem_live.mpr (Or.inr hold))
  rw [tradesSince_of_mem hmem, hnone, List.append_nil]
  exact hm stop hold

lemma missed_step_iff (hs : a.Sound h) (hm : a.NoneMissed h) (event : MECoreEvent) :
    (a.step event).1.NoneMissed (h ++ (a.step event).2) ↔ a.LooksOnce event := by
  have hshape : a.book.Shape := by
    obtain ⟨hist, hb, -, -⟩ := hs
    exact hb.shape
  cases event with
  | newOrder event => exact missed_newOrder_iff hs hm event
  | cancelOrder event =>
    apply iff_of_true _ trivial
    cases hc : a.book.cancelOrder event.orderId with
    | none =>
      rw [step_cancelOrder_none hc]
      exact hm.of_subset hs (fun stop hstop => hstop) rfl
    | some c =>
      rw [step_cancelOrder_some hc]
      exact hm.of_subset hs (removes_of_cancelOrder hshape hc).stopOrders_subset rfl
  | modifyOrder event =>
    apply iff_of_true _ trivial
    cases hc : a.book.cancelOrder event.orderId with
    | none =>
      rw [step_modifyOrder_none hc]
      exact hm.of_subset hs (fun stop hstop => hstop) rfl
    | some c =>
      obtain ⟨r, -, hstep⟩ := step_modifyOrder_some hc
      rw [hstep]
      have hkept : (c.replaced event.newPrice event.newQuantity).book.stopOrders
          = c.book.stopOrders := insertResting_stopOrders
      refine hm.of_subset hs (fun stop hstop => ?_) rfl
      exact (removes_of_cancelOrder hshape hc).stopOrders_subset stop (hkept ▸ hstop)

/-- In every run, no stop that a trade triggers stays parked exactly as long as every event's
trades trigger only what its last price triggers. -/
theorem run_missed_iff (symbolIdx : ℕ) (hasClearingHouse : Bool) (events : List MECoreEvent) :
    Machine.Throughout (Machine.recording step) (fun s => s.1.NoneMissed s.2)
        (new symbolIdx hasClearingHouse, []) events ↔
      Machine.Along (Machine.recording step) (fun s event => s.1.LooksOnce event)
        (new symbolIdx hasClearingHouse, []) events := by
  refine Machine.throughout_iff_along (I := fun s => s.1.Sound s.2)
    (fun s event hs => hs.step event) ?_ (Sound.new _ _) (fun stop hstop => by cases hstop)
  rintro ⟨a, h⟩ event hs hm
  exact missed_step_iff hs hm event

/-- A buy takes the offers at 10 and 20: the sell stop at 15 does not see the first trade. -/
theorem not_missed_sweep : ¬∀ (symbolIdx : ℕ) (hasClearingHouse : Bool)
    (events : List MECoreEvent), Machine.Throughout (Machine.recording step)
      (fun s => s.1.NoneMissed s.2) (new symbolIdx hasClearingHouse, []) events := by
  intro h
  have hlast := (h 1 false [.newOrder ⟨1, 1, .sell, .limit, .day, 10, 5, 1, 0⟩,
    .newOrder ⟨2, 1, .sell, .limit, .day, 20, 5, 1, 0⟩,
    .newOrder ⟨3, 1, .sell, .stopMarket, .day, 0, 5, 2, 15⟩,
    .newOrder ⟨4, 1, .buy, .limit, .day, 20, 10, 3, 0⟩]).2.2.2.2
  have hmissed := hlast _ (List.head_mem (by decide)) _ (List.head_mem (by decide))
  exact absurd hmissed (by decide)

end MECoreActor

end EuNEx
