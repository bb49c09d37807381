import EuNEx.Book.Refinement

/-!
# What the history of a book says

The invariants of every reachable book, in the book's own terms: how the containers fit together,
where the quantity of every order went, who the parties of every trade are, and what execution
reports state.
-/

namespace EuNEx.Book

open Ledger (Steps Laws)

variable {b : Book} {hist : List BookEvent}

/-! ### The representation invariant -/

/-- All orders in the containers, level by level and the parked stops last. -/
def orders (b : Book) : List Order := b.resting .buy ++ b.resting .sell ++ b.stopOrders

/-- The representation invariant. -/
structure RepInv (b : Book) : Prop where
  nonempty : ∀ s, ∀ level ∈ (b.levels s).entries, level.2 ≠ []
  filed : ∀ s, ∀ level ∈ (b.levels s).entries, ∀ o ∈ level.2,
    o.price = level.1 ∧ o.side = s ∧ o.remainingQty ≤ o.quantity
  distinct : (b.orders.map Order.orderId).Nodup
  allocated : ∀ o ∈ b.orders, o.orderId < b.nextOrderId
  index : ∀ id side price, b.orderIndex.lookup id = some (side, price) ↔
    ∃ o ∈ b.resting .buy ++ b.resting .sell, o.orderId = id ∧ o.side = side ∧ o.price = price
  arrival : ∀ s, ∀ level ∈ (b.levels s).entries,
    level.2.Pairwise fun o o' => o.orderId < o'.orderId
  stopArrival : b.stopOrders.Pairwise fun o o' => o.orderId < o'.orderId

lemma live_eq_orders (b : Book) : b.live = ↑b.orders := rfl

lemma Sound.repInv (h : b.Sound hist) : b.RepInv where
  nonempty s level hl := (h.shape.levels s level hl).nonempty
  filed s level hl o ho := by
    have hlevel := h.shape.levels s level hl
    have hlive : o ∈ b.live := mem_live.mpr (Or.inl ⟨s, OrdMap.mem_elems.mpr ⟨level, hl, ho⟩⟩)
    exact ⟨hlevel.price o ho, hlevel.side o ho, h.laws.ids.bound o hlive⟩
  distinct := by
    have hnodup := h.laws.ids.nodup
    rwa [ledger, live_eq_orders, Multiset.map_coe, Multiset.coe_nodup] at hnodup
  allocated o ho := h.laws.ids.live_lt (show o ∈ b.live from Multiset.mem_coe.mpr ho)
  index id side price := by
    rw [h.shape.indexed.lookup, Multiset.coe_add]
    rfl
  arrival s level hl := (h.shape.levels s level hl).arrival
  stopArrival := h.shape.arrival

/-- Whatever the operations, the containers of a book stay in step. -/
theorem run_repInv (symbolIdx : ℕ) (ops : List BookOp) : (run symbolIdx ops).1.RepInv :=
  (sound_run symbolIdx ops).repInv

/-! ### Where the quantity went -/

/-- The remaining quantity of the resting order with this id, or the quantity of the parked stop
with this id. -/
def openQty (b : Book) (id : ℕ) : ℕ :=
  ((b.resting .buy ++ b.resting .sell).map fun o =>
    if o.orderId = id then o.remainingQty else 0).sum +
  (b.stopOrders.map fun o => if o.orderId = id then o.quantity else 0).sum

lemma Sound.held_live (h : b.Sound hist) (id : ℕ) : Ledger.held b.live id = b.openQty id := by
  have hstops : (b.stopOrders.map fun o => if o.orderId = id then o.remainingQty else 0)
      = b.stopOrders.map fun o => if o.orderId = id then o.quantity else 0 := by
    apply List.map_congr_left
    intro o ho
    rw [h.laws.ids.parked o (show o ∈ b.live from mem_live.mpr (Or.inr ho)) (h.shape.parked o ho)]
  simp only [Ledger.held, live_eq_orders, orders, Multiset.map_coe, Multiset.sum_coe,
    List.map_append, List.sum_append, openQty, hstops]

/-- The quantity of the order that entered under the id is traded, open, or was removed when the
order left. -/
def Accounted (b : Book) (log : List BookEvent) (id : ℕ) : Prop :=
  ∃ e, (∀ e', .entry e' ∈ log ∧ e'.orderId = id ↔ e' = e) ∧
    e.quantity = traded log id + b.openQty id + exited log id ∧ traded log id ≤ e.quantity

/-- The trade is charged in full to its buyer and to its seller, two different orders that entered
before it, and to nobody else. -/
def Charged (pre : List BookEvent) (t : Trade) : Prop :=
  t.buyOrderId ∈ entryIds pre ∧ t.sellOrderId ∈ entryIds pre ∧ t.buyOrderId ≠ t.sellOrderId ∧
    ∀ id, traded (pre ++ [.trade t]) id
      = traded pre id + if id = t.buyOrderId ∨ id = t.sellOrderId then t.quantity else 0

/-- Every quantity that ever entered is accounted for, and each trade takes the same amount from
its buyer and its seller. -/
theorem run_accounted (symbolIdx : ℕ) (ops : List BookOp) :
    (∀ id, 1 ≤ id → id < (run symbolIdx ops).1.nextOrderId →
      (run symbolIdx ops).1.Accounted (run symbolIdx ops).2 id) ∧
    ∀ pre t post, (run symbolIdx ops).2 = pre ++ .trade t :: post → Charged pre t := by
  have h := sound_run symbolIdx ops
  have hids : ((run symbolIdx ops).1.ledger (run symbolIdx ops).2).Ids := h.laws.ids
  constructor
  · intro id hpos hlt
    obtain ⟨e, he, rfl⟩ := mem_entryIds.mp (hids.mem_entryIds_iff.mpr ⟨hpos, hlt⟩)
    have hbalance : e.quantity = traded (run symbolIdx ops).2 e.orderId
        + Ledger.held (run symbolIdx ops).1.live e.orderId
        + exited (run symbolIdx ops).2 e.orderId :=
      Ledger.Account.balance hids h.laws.account he
    rw [h.held_live] at hbalance
    refine ⟨e, fun e' => ⟨?_, ?_⟩, hbalance, by omega⟩
    · rintro ⟨he', hid⟩
      exact entry_unique hids.entryIds_nodup he' he hid
    · rintro rfl
      exact ⟨he, rfl⟩
  · intro pre t post hsplit
    obtain ⟨-, buyer, seller, hbuyer, hseller, hne, hterms⟩ :=
      h.laws.provenance.always pre (.trade t) post hsplit
    rw [← hterms.buyOrderId, ← hterms.sellOrderId] at hne
    refine ⟨mem_entryIds.mpr ⟨buyer, hbuyer, hterms.buyOrderId.symm⟩,
      mem_entryIds.mpr ⟨seller, hseller, hterms.sellOrderId.symm⟩, hne, fun id => ?_⟩
    simp only [traded_append, traded_trade, eq_comm (a := id)]

/-! ### The parties of a trade -/

/-- The entered order is one that was passed to `newOrder`: by the caller, or by
`triggerStopOrders` for a stop that was parked. -/
def Passed (ops : List BookOp) (log : List BookEvent) (e : Order) : Prop :=
  ∃ order, e = { order with orderId := e.orderId, remainingQty := order.quantity, status := .new } ∧
    (.newOrder order ∈ ops ∨ ∃ stop, .exit stop ∈ log ∧ stop.ordType.isStop = true ∧
      order = converted stop)

lemma Passed.mono {ops : List BookOp} {log : List BookEvent} {e : Order} (h : Passed ops log e)
    (evs : List BookEvent) : Passed ops (log ++ evs) e := by
  obtain ⟨order, he, hop | ⟨stop, hstop, hrest⟩⟩ := h
  · exact ⟨order, he, Or.inl hop⟩
  · exact ⟨order, he, Or.inr ⟨stop, by simp [hstop], hrest⟩⟩

lemma entry_enterConverted {out : Outcome} {stops : List Order} (h : out.Sound hist) {e : Order}
    (he : .entry e ∈ (enterConverted out stops).log) :
    .entry e ∈ out.log ∨ ∃ stop ∈ stops, ∃ b' : Book, e = b'.entered (converted stop) := by
  induction stops generalizing out with
  | nil => exact Or.inl he
  | cons stop stops ih =>
    rcases ih (h.convert stop) he with he | ⟨stop', hstop', hb⟩
    · rcases List.mem_append.mp he with he | he
      · exact Or.inl he
      · exact Or.inr ⟨stop, by simp, out.book, entry_newOrder h.shape.levels he⟩
    · exact Or.inr ⟨stop', by simp [hstop'], hb⟩

lemma enterConverted_log (out : Outcome) (stops : List Order) :
    ∃ evs, (enterConverted out stops).log = out.log ++ evs := by
  induction stops generalizing out with
  | nil => exact ⟨[], by simp [enterConverted]⟩
  | cons stop stops ih =>
    obtain ⟨evs, hevs⟩ := ih (convert out stop)
    exact ⟨_, by rw [enterConverted_cons, hevs, convert, List.append_assoc]⟩

/-- An operation that hands out no id enters no order. -/
lemma Sound.entryIds_eq_nil {b' : Book} {evs : List BookEvent} (h : b.Sound hist)
    (h' : b'.Sound (hist ++ evs)) (hnext : b'.nextOrderId = b.nextOrderId) : entryIds evs = [] := by
  have heq : entryIds (hist ++ evs) = List.range' 1 (b'.nextOrderId - 1) := h'.laws.ids.entryIds
  have heq' : entryIds hist = List.range' 1 (b.nextOrderId - 1) := h.laws.ids.entryIds
  rw [entryIds_append, hnext, ← heq'] at heq
  simpa using heq

lemma not_entry_cancel (h : b.Shape) {op : BookOp} (hop : op.withdraws = true)
    (hmodify : op.isModify = false) {e : Order} : .entry e ∉ (b.outcome op).log := by
  rcases h.outcome_cases hop with hout | ⟨id, c, -, hout | ⟨htrue, -⟩⟩
  · simp [hout]
  · simp [hout, Cancel.outcome]
  · simp [hmodify] at htrue

/-- Without amendments, every entry of a step is an order passed to `newOrder`. -/
lemma passed_step {ops : List BookOp} {op : BookOp} (h : b.Sound hist) (hop : op ∈ ops)
    (hmodify : op.isModify = false) {e : Order} (he : .entry e ∈ (b.step op).2) :
    Passed ops (hist ++ (b.step op).2) e := by
  cases op with
  | newOrder order =>
    have heq := entry_newOrder h.shape.levels he
    exact ⟨order, by simp [heq, entered], Or.inl hop⟩
  | cancelOrder _ | cancelStopOrder _ => exact absurd he (not_entry_cancel h.shape rfl rfl)
  | modifyOrder orderId newPrice newQty => simp [BookOp.isModify] at hmodify
  | uncross =>
    have hnil := h.entryIds_eq_nil (h.step .uncross) (uncross_nextOrderId h.shape)
    have hmem := mem_entryIds.mpr ⟨e, he, rfl⟩
    simp [hnil] at hmem
  | triggerStopOrders tradePrice =>
    replace he : .entry e ∈ (enterConverted (b.withdrawTriggered tradePrice)
      (b.triggeredStops tradePrice)).log := he
    rcases entry_enterConverted (h.withdrawTriggered tradePrice) he with
      he | ⟨stop, hstop, b', hb'⟩
    · simp [withdrawTriggered] at he
    · obtain ⟨evs, hlog⟩ := enterConverted_log (b.withdrawTriggered tradePrice)
        (b.triggeredStops tradePrice)
      refine ⟨converted stop, by simp [hb', entered], Or.inr ⟨stop, ?_, ?_, rfl⟩⟩
      · show .exit stop ∈ hist ++ (enterConverted (b.withdrawTriggered tradePrice)
          (b.triggeredStops tradePrice)).log
        rw [hlog]
        simp [withdrawTriggered, hstop]
      · exact h.shape.parked stop (List.mem_of_mem_filter hstop)
  | setPhase phase => cases he

/-- The history of the trades of a run: ids count up from 1, and each trade is between an order to
buy and an order to sell that were passed in, at a price within both limits. -/
structure TradeHistory (ops : List BookOp) (log : List BookEvent) (last : ℤ) : Prop where
  tradeIds : (trades log).map Trade.tradeId = List.range' 1 (trades log).length
  parties : ∀ pre t post, log = pre ++ .trade t :: post → ∃ buyer seller,
    .entry buyer ∈ pre ∧ .entry seller ∈ pre ∧ Passed ops log buyer ∧ Passed ops log seller ∧
      buyer.orderId ≠ seller.orderId ∧ t.Between buyer seller
  lastTradePrice : last = lastPrice log

theorem run_tradeHistory (symbolIdx : ℕ) (ops : List BookOp)
    (hmodify : ∀ op ∈ ops, op.isModify = false) :
    TradeHistory ops (run symbolIdx ops).2 (run symbolIdx ops).1.lastTradePrice := by
  have hprov := (sound_run symbolIdx ops).laws.provenance
  have halong : Machine.Along Book.step (fun _ op => op ∈ ops ∧ op.isModify = false)
      (new symbolIdx) ops := Machine.along_of_forall fun op hop => ⟨hop, hmodify op hop⟩
  have hpassed := Machine.run_induction
    (Q := fun b hist => b.Sound hist ∧ ∀ e, .entry e ∈ hist → Passed ops hist e) (h := [])
    (fun b hist op hC hQ => ⟨hQ.1.step op, fun e he => by
      rcases List.mem_append.mp he with he | he
      · exact (hQ.2 e he).mono _
      · exact passed_step hQ.1 hC.1 hC.2 he⟩)
    halong ⟨Sound.new symbolIdx, by simp⟩
  rw [List.nil_append] at hpassed
  refine ⟨hprov.tradeIds, fun pre t post hsplit => ?_, hprov.lastTradePrice⟩
  obtain ⟨-, buyer, seller, hbuyer, hseller, hne, hterms⟩ :=
    hprov.always pre (.trade t) post hsplit
  have hmem : ∀ e, .entry e ∈ pre → .entry e ∈ (run symbolIdx ops).2 := fun e he => by
    rw [hsplit]
    simp [he]
  exact ⟨buyer, seller, hbuyer, hseller, hpassed.2 _ (hmem _ hbuyer), hpassed.2 _ (hmem _ hseller),
    hne, hterms⟩

/-- A buyer crosses a resting seller. -/
theorem run_tradeHistory_crossing :
    (trades (run 1 [.newOrder (dayLimit .sell 10 5 1), .newOrder (dayLimit .buy 12 3 2)]).2).length
      = 1 ∧
    TradeHistory [.newOrder (dayLimit .sell 10 5 1), .newOrder (dayLimit .buy 12 3 2)]
      (run 1 [.newOrder (dayLimit .sell 10 5 1), .newOrder (dayLimit .buy 12 3 2)]).2
      (run 1
        [.newOrder (dayLimit .sell 10 5 1), .newOrder (dayLimit .buy 12 3 2)]).1.lastTradePrice :=
  ⟨by decide, run_tradeHistory 1 _ (by decide)⟩

/-! ### Execution reports -/

/-- The report states what the order has traded before it, fits the quantity of the order, and if
it is the last word on the order, nothing about the order comes after it. -/
structure Truthful (pre : List BookEvent) (r : ExecutionReport) (post : List BookEvent) : Prop where
  filledQty : r.filledQty = traded pre r.orderId
  quantity : ∃ e, .entry e ∈ pre ∧ e.orderId = r.orderId ∧
    (r.status = .new ∨ r.status = .partiallyFilled → r.filledQty + r.remainingQty = e.quantity) ∧
    (r.status = .filled → r.filledQty = e.quantity)
  last : r.status = .filled ∨ r.status = .cancelled ∨ r.status = .rejected →
    ∀ ev ∈ post, ¬ev.Mentions r.orderId

/-- Every report of the history agrees with its trades. -/
def ReportHistory (log : List BookEvent) : Prop :=
  ∀ pre r post, log = pre ++ .exec r :: post → Truthful pre r post

theorem run_reports (symbolIdx : ℕ) (ops : List BookOp) :
    ReportHistory (run symbolIdx ops).2 := by
  intro pre r post hsplit
  have h := (sound_run symbolIdx ops).laws.reports
  obtain ⟨hfilled, e, he, hid, -, hopen, hfull⟩ := h.always pre (.exec r) post hsplit
  have hsilent : (pre ++ .exec r :: post).Pairwise _ := hsplit ▸ h.silent
  refine ⟨hfilled, ⟨e, he, hid, fun hstatus => hopen ?_, hfull⟩, ?_⟩
  · rcases hstatus with hstatus | hstatus <;> simp [hstatus, OrderStatus.isFinal]
  · intro hstatus ev hev
    have hfinal : r.status.isFinal = true := by
      rcases hstatus with hstatus | hstatus | hstatus <;> simp [hstatus, OrderStatus.isFinal]
    exact List.rel_of_pairwise_cons (List.pairwise_append.mp hsilent).2.1 hev r.orderId
      ⟨rfl, hfinal⟩

end EuNEx.Book
