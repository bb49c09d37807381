import EuNEx.Book.Auction
import EuNEx.Book.NewOrder
import EuNEx.Ledger.Laws

/-!
# The book refines the ledger

Every public operation of a book is a sequence of rules of the ledger, and keeps the shape of the
containers. So every book that a run reaches is sound: it has its shape, and its ledger obeys the
laws.
-/

namespace EuNEx

open Ledger (Steps Laws)

/-- The invariant of a book, given the history of its events. -/
structure Book.Sound (b : Book) (hist : List BookEvent) : Prop where
  shape : b.Shape
  laws : (b.ledger hist).Laws

/-- The invariant between two steps of `newOrder`: the incoming order is live, but not on the
book yet, and has the newest id. -/
structure Matching.Sound (m : Matching) (hist : List BookEvent) : Prop where
  shape : m.book.Shape
  laws : (m.ledger (m.incoming ::ₘ m.book.live) hist).Laws
  newest : m.incoming.orderId + 1 = m.book.nextOrderId

/-- The invariant after an operation. -/
abbrev Outcome.Sound (out : Outcome) (hist : List BookEvent) : Prop :=
  out.book.Sound (hist ++ out.log)

namespace Matching

variable {m m' : Matching} {hist : List BookEvent}

/-- The orders on the book are older than the incoming one. -/
lemma Sound.newer (h : m.Sound hist) : ∀ o ∈ m.book.live, o.orderId < m.incoming.orderId := by
  intro o ho
  have hids := h.laws.ids
  have hlt : o.orderId < m.book.nextOrderId :=
    hids.live_lt (show o ∈ m.incoming ::ₘ m.book.live from Multiset.mem_cons_of_mem ho)
  have hne : o.orderId ≠ m.incoming.orderId := hids.ne_of_mem_rest rfl ho
  have := h.newest
  omega

/-- Matching keeps the invariant. -/
lemma Sound.sweeps {s : Side} (h : m.Sound hist) (hsw : m.Sweeps s m')
    (hside : m.incoming.side = s.opposite) (hexec : m.incoming.ordType.isStop = false) :
    m'.Sound hist := by
  have hopposite : m'.book.resting s.opposite = m.book.resting s.opposite := by
    rw [Book.resting, hsw.opposite, Book.resting]
  refine ⟨?_, ?_, ?_⟩
  · refine h.shape.of_side hsw.levels rfl hsw.opposite ?_ hsw.stopOrders
    exact hsw.indexed _ (h.shape.indexed_side s)
  · have hsteps := hsw.steps hside hexec (↑(m.book.resting s.opposite) + ↑m.book.stopOrders) hist
    have hlaws := h.laws
    rw [Book.live_eq _ s] at hlaws ⊢
    rw [hopposite, hsw.stopOrders]
    exact hlaws.steps hsteps
  · rw [hsw.nextOrderId, hsw.incoming.orderId, h.newest]

lemma Sound.execute (h : m.Sound hist) (hexec : m.incoming.ordType.isStop = false) :
    m.execute.Sound hist :=
  h.sweeps (execute_sweeps h.shape.levels) (by cases m.incoming.side <;> rfl) hexec

/-- Reporting the incoming order and putting it to rest. -/
lemma Sound.rest (h : m.Sound hist) (hexec : m.incoming.ordType.isStop = false)
    (status status' : OrderStatus) (hopen : status'.isFinal = false) :
    let order := { m.incoming with status := status }
    (⟨m.book.insertResting order, m.log ++ [.exec (m.incoming.report status'
      (m.incoming.quantity - m.incoming.remainingQty) m.incoming.remainingQty)]⟩ : Outcome).Sound
      hist := by
  intro order
  refine ⟨h.shape.insertResting hexec h.newer, ?_⟩
  have hstep := Ledger.Step.report (l := m.ledger (m.incoming ::ₘ m.book.live) hist) m.incoming
    m.book.live status (m.incoming.report status' (m.incoming.quantity - m.incoming.remainingQty)
      m.incoming.remainingQty) rfl ⟨rfl, rfl, rfl⟩ hopen rfl
  have hlaws := h.laws.steps (Relation.ReflTransGen.single hstep)
  simpa [Book.ledger, Book.live_insertResting, Outcome.ledger] using hlaws

/-- Reporting the incoming order and letting it go. -/
lemma Sound.close (h : m.Sound hist) (status : OrderStatus) (remainingQty : ℕ)
    (hstatus : status = .cancelled ∨ status = .rejected) :
    (⟨m.book, m.log ++ [.exit m.incoming, .exec (m.incoming.report status
      (m.incoming.quantity - m.incoming.remainingQty) remainingQty)]⟩ : Outcome).Sound hist := by
  refine ⟨h.shape, ?_⟩
  have hstep := Ledger.Step.close (l := m.ledger (m.incoming ::ₘ m.book.live) hist) m.incoming
    m.book.live
    (m.incoming.report status (m.incoming.quantity - m.incoming.remainingQty) remainingQty)
    rfl ⟨rfl, rfl, rfl⟩ hstatus
  have hlaws := h.laws.steps (Relation.ReflTransGen.single hstep)
  simpa [Book.ledger, Outcome.ledger] using hlaws

lemma Sound.settle (h : m.Sound hist) (hexec : m.incoming.ordType.isStop = false) :
    m.settle.toOutcome.Sound hist := by
  rw [Matching.settle]
  simp only
  split
  · rename_i hpos
    split
    · exact h.close .cancelled 0 (Or.inl rfl)
    · exact h.rest hexec _ _ (by split <;> rfl)
  · rename_i hz
    refine ⟨h.shape, ?_⟩
    have hz : m.incoming.remainingQty = 0 := by omega
    have hstep := Ledger.Step.filled (l := m.ledger (m.incoming ::ₘ m.book.live) hist) m.incoming
      m.book.live (m.incoming.report .filled m.incoming.quantity 0) rfl
      ⟨rfl, rfl, by simp [Order.report, hz]⟩ rfl hz
    have hlaws := h.laws.steps (Relation.ReflTransGen.single hstep)
    simpa [Book.ledger, Outcome.ledger] using hlaws

end Matching

namespace Book

variable {b : Book} {hist : List BookEvent}

lemma Sound.new (symbolIdx : ℕ) : (Book.new symbolIdx).Sound [] :=
  ⟨Shape.new symbolIdx, Laws.empty⟩

/-- The laws survive any sequence of rules. -/
lemma Sound.of_steps {b' : Book} {hist' : List BookEvent} (h : b.Sound hist) (hshape : b'.Shape)
    (hsteps : Steps (b.ledger hist) (b'.ledger hist')) : b'.Sound hist' :=
  ⟨hshape, h.laws.steps hsteps⟩

lemma Sound.enter (h : b.Sound hist) (order : Order) : (b.enter order).Sound hist := by
  refine ⟨h.shape.congr (fun s => by cases s <;> rfl) rfl rfl, ?_, rfl⟩
  have hstep := Ledger.Step.enter (l := b.ledger hist) (b.entered order) rfl rfl
  exact h.laws.steps (Relation.ReflTransGen.single hstep)

lemma Sound.park {order : Order} (h : b.Sound hist) (hstop : order.ordType.isStop = true) :
    (b.enter order).park.toOutcome.Sound hist := by
  have hm := h.enter order
  refine ⟨⟨?_, hm.shape.indexed, ?_, ?_⟩, ?_⟩
  · intro s
    cases s <;> exact hm.shape.levels _
  · intro o ho
    rcases List.mem_append.mp ho with ho | ho
    · exact hm.shape.parked o ho
    · obtain rfl := List.mem_singleton.mp ho
      exact hstop
  · refine List.pairwise_append.mpr ⟨hm.shape.arrival, List.pairwise_singleton _ _, ?_⟩
    intro o ho o' ho'
    obtain rfl := List.mem_singleton.mp ho'
    exact hm.newer o (mem_live.mpr (Or.inr ho))
  · have hstep := Ledger.Step.report (l := (b.enter order).ledger
      ((b.enter order).incoming ::ₘ (b.enter order).book.live) hist) (b.enter order).incoming
      (b.enter order).book.live (b.enter order).incoming.status
      ((b.enter order).incoming.report .new 0 order.quantity) rfl
      ⟨rfl, rfl, by simp [Book.enter, entered, Order.report]⟩ rfl rfl
    have hlaws := hm.laws.steps (Relation.ReflTransGen.single hstep)
    have hlive : (b.enter order).park.book.live
        = (b.enter order).incoming ::ₘ (b.enter order).book.live := by
      show (↑(b.resting .buy) + ↑(b.resting .sell) + ↑(b.stopOrders ++ [b.entered order])
        : Multiset Order) = _
      rw [← Multiset.coe_add, Multiset.coe_singleton, ← add_assoc, add_comm]
      rfl
    rw [ledger, hlive]
    simpa [Outcome.ledger, Matching.park, Book.enter, entered] using hlaws

/-- Entering an order keeps the invariant. -/
theorem Sound.newOrder (h : b.Sound hist) (order : Order) :
    (b.newOrder order).toOutcome.Sound hist := by
  have hm := h.enter order
  rcases b.newOrder_cases order with
    ⟨hstop, -, hnew⟩ | ⟨hexec, -, -, hnew⟩ | ⟨-, hnew⟩ | ⟨hex, hnew⟩
  · rw [hnew]
    exact h.park hstop
  · have hrest := hm.rest hexec .new .new rfl
    rw [hnew]
    simpa [Matching.accumulate, Book.enter, entered] using hrest
  · have hclose := hm.close .rejected order.quantity (Or.inr rfl)
    rw [hnew]
    simpa [Matching.reject, Book.enter, entered] using hclose
  · rw [hnew]
    apply (hm.execute hex.1).settle
    rw [(execute_sweeps hm.shape.levels).incoming.ordType]
    exact hex.1

/-! ### Stop orders -/

/-- Orders that leave one after the other. -/
lemma withdraw_steps (orders : List Order) (rest : Multiset Order) (nextOrderId nextTradeId : ℕ)
    (lastTradePrice : ℤ) (log : List BookEvent) :
    Steps ⟨↑orders + rest, nextOrderId, nextTradeId, lastTradePrice, log⟩
      ⟨rest, nextOrderId, nextTradeId, lastTradePrice, log ++ orders.map .exit⟩ := by
  induction orders generalizing log with
  | nil => simpa using Relation.ReflTransGen.refl
  | cons o orders ih =>
    have hstep := Ledger.Step.withdraw
      (l := ⟨↑(o :: orders) + rest, nextOrderId, nextTradeId, lastTradePrice, log⟩) o
      (↑orders + rest) (by rw [← Multiset.cons_coe, Multiset.cons_add])
    have hsteps := (Relation.ReflTransGen.single hstep).trans (ih (log ++ [.exit o]))
    simpa using hsteps

/-- One turn of the loop over the triggered stops. -/
def convert (out : Outcome) (stop : Order) : Outcome :=
  ⟨(out.book.newOrder (converted stop)).book, out.log ++ (out.book.newOrder (converted stop)).log⟩

lemma enterConverted_cons (out : Outcome) (stop : Order) (stops : List Order) :
    enterConverted out (stop :: stops) = enterConverted (convert out stop) stops := rfl

lemma Sound.convert {out : Outcome} (h : out.Sound hist) (stop : Order) :
    (convert out stop).Sound hist := by
  have hnew := Sound.newOrder h (converted stop)
  rwa [Outcome.Sound, List.append_assoc] at hnew

lemma Sound.enterConverted {out : Outcome} {stops : List Order} (h : out.Sound hist) :
    (enterConverted out stops).Sound hist := by
  induction stops generalizing out with
  | nil => exact h
  | cons stop stops ih => exact ih (h.convert stop)

/-- `triggered`: the stops that leave the book. -/
def triggeredStops (b : Book) (tradePrice : ℤ) : List Order :=
  b.stopOrders.filter fun stop => triggers tradePrice stop

/-- The book once they have left. -/
def withdrawTriggered (b : Book) (tradePrice : ℤ) : Outcome :=
  ⟨{ b with stopOrders := b.stopOrders.filter fun stop => !triggers tradePrice stop },
    (b.triggeredStops tradePrice).map .exit⟩

lemma triggerStopOrders_eq (b : Book) (tradePrice : ℤ) : b.triggerStopOrders tradePrice
    = enterConverted (b.withdrawTriggered tradePrice) (b.triggeredStops tradePrice) := rfl

lemma Sound.withdrawTriggered (h : b.Sound hist) (tradePrice : ℤ) :
    (b.withdrawTriggered tradePrice).Sound hist := by
  refine h.of_steps ⟨?_, h.shape.indexed, ?_, ?_⟩ ?_
  · intro s
    cases s <;> exact h.shape.levels _
  · intro o ho
    exact h.shape.parked o (List.mem_of_mem_filter ho)
  · exact h.shape.arrival.filter _
  · have hsteps := withdraw_steps (b.triggeredStops tradePrice)
      (↑(b.resting .buy) + ↑(b.resting .sell)
        + ↑(b.stopOrders.filter fun stop => !triggers tradePrice stop))
      b.nextOrderId b.nextTradeId b.lastTradePrice hist
    have hperm : (↑(b.triggeredStops tradePrice)
        + ↑(b.stopOrders.filter fun stop => !triggers tradePrice stop) : Multiset Order)
        = ↑b.stopOrders := by
      rw [Multiset.coe_add]
      exact Multiset.coe_eq_coe.mpr (List.filter_append_perm _ _)
    rw [add_left_comm, hperm] at hsteps
    exact hsteps

theorem Sound.triggerStopOrders (h : b.Sound hist) (tradePrice : ℤ) :
    (b.triggerStopOrders tradePrice).Sound hist :=
  (h.withdrawTriggered tradePrice).enterConverted

/-! ### Cancel and modify -/

lemma Sound.cancel {id : ℕ} {c : Cancel} (h : b.Sound hist) (hc : b.Removes id c) :
    c.outcome.Sound hist := by
  refine h.of_steps (hc.shape h.shape) (Relation.ReflTransGen.single ?_)
  have habout : c.report.About c.removed := by
    have hbound := h.laws.ids.parked c.removed hc.mem_live
    cases hc with
    | stop o stops hid hmem hperm hsub =>
      refine ⟨hid.symm, rfl, ?_⟩
      have := hbound (h.shape.parked o hmem)
      simp only at this ⊢
      omega
    | resting s o levels hid hperm hOK => exact ⟨hid.symm, rfl, rfl⟩
  have hstep := Ledger.Step.close (l := b.ledger hist) c.removed c.book.live c.report hc.live habout
    (Or.inl (by cases hc <;> rfl))
  simpa [ledger, Cancel.outcome, hc.nextOrderId, hc.nextTradeId, hc.lastTradePrice] using hstep

lemma Sound.replaced {id : ℕ} {c : Cancel} (h : b.Sound hist) (hc : b.Removes id c)
    (newPrice : ℤ) (newQty : ℕ) : (c.replaced newPrice newQty).Sound hist := by
  set o := c.book.replacement c.report newPrice newQty with ho
  -- the old order leaves
  have hgone : c.book.Sound (hist ++ [.exit c.removed]) := by
    refine h.of_steps (hc.shape h.shape) (Relation.ReflTransGen.single ?_)
    have hstep := Ledger.Step.withdraw (l := b.ledger hist) c.removed c.book.live hc.live
    simpa [ledger, hc.nextOrderId, hc.nextTradeId, hc.lastTradePrice] using hstep
  -- the replacement enters, and rests at once
  have hm : (⟨⟨{ c.book with nextOrderId := c.book.nextOrderId + 1 },
      [.exit c.removed, .entry o]⟩, o⟩ : Matching).Sound hist := by
    refine ⟨hgone.shape.congr (fun s => by cases s <;> rfl) rfl rfl, ?_, rfl⟩
    have hstep := Ledger.Step.enter (l := c.book.ledger (hist ++ [.exit c.removed])) o rfl rfl
    have hlaws := hgone.laws.steps (Relation.ReflTransGen.single hstep)
    show Laws ⟨o ::ₘ c.book.live, c.book.nextOrderId + 1, c.book.nextTradeId,
      c.book.lastTradePrice, hist ++ [.exit c.removed, .entry o]⟩
    simpa [ledger] using hlaws
  have hrest := hm.rest rfl .new .new rfl
  simpa [ho, replacement, Cancel.replaced] using hrest

/-- What a cancel or an amendment does: nothing, or it takes an order off the book, and an amendment
puts the replacement on. -/
theorem Shape.outcome_cases (h : b.Shape) {op : BookOp} (hop : op.withdraws = true) :
    b.outcome op = ⟨b, []⟩ ∨ ∃ id c, b.Removes id c ∧ (b.outcome op = c.outcome ∨
      op.isModify = true ∧ ∃ newPrice newQty, b.outcome op = c.replaced newPrice newQty) := by
  cases op with
  | cancelOrder id =>
    cases hc : b.cancelOrder id with
    | none => exact Or.inl (outcome_cancelOrder_none hc)
    | some c =>
      exact Or.inr ⟨id, c, removes_of_cancelOrder h hc, Or.inl (outcome_cancelOrder_some hc)⟩
  | cancelStopOrder id =>
    cases hc : b.cancelStopOrder id with
    | none => exact Or.inl (outcome_cancelStopOrder_none hc)
    | some c =>
      exact Or.inr ⟨id, c, removes_of_cancelStopOrder hc, Or.inl (outcome_cancelStopOrder_some hc)⟩
  | modifyOrder id newPrice newQty =>
    cases hc : b.cancelOrder id with
    | none => exact Or.inl (outcome_modifyOrder_none hc)
    | some c =>
      exact Or.inr ⟨id, c, removes_of_cancelOrder h hc,
        Or.inr ⟨rfl, newPrice, newQty, outcome_modifyOrder_some hc⟩⟩
  | _ => cases hop

lemma Sound.withdraws (h : b.Sound hist) {op : BookOp} (hop : op.withdraws = true) :
    (b.outcome op).Sound hist := by
  rcases h.shape.outcome_cases hop with hout | ⟨id, c, hc, hout | ⟨-, newPrice, newQty, hout⟩⟩
  · rw [hout]
    simpa [Outcome.Sound] using h
  · rw [hout]
    exact h.cancel hc
  · rw [hout]
    exact h.replaced hc newPrice newQty

/-- Cancels and amendments make no trades. -/
lemma trades_withdraws (h : b.Shape) {op : BookOp} (hop : op.withdraws = true) :
    trades (b.outcome op).log = [] := by
  rcases h.outcome_cases hop with hout | ⟨id, c, -, hout | ⟨-, newPrice, newQty, hout⟩⟩ <;>
    rw [hout] <;> rfl

/-! ### Runs -/

/-- Every operation keeps the invariant. -/
theorem Sound.step (h : b.Sound hist) (op : BookOp) :
    (b.step op).1.Sound (hist ++ (b.step op).2) := by
  show (b.outcome op).Sound hist
  cases op with
  | newOrder order => exact h.newOrder order
  | cancelOrder _ | cancelStopOrder _ | modifyOrder _ _ _ => exact h.withdraws rfl
  | uncross => exact h.of_steps (uncross_shape h.shape) (uncross_steps h.shape hist)
  | triggerStopOrders tradePrice => exact h.triggerStopOrders tradePrice
  | setPhase phase =>
    refine h.of_steps (h.shape.congr (fun s => by cases s <;> rfl) rfl rfl) ?_
    rw [show hist ++ (b.outcome (.setPhase phase)).log = hist from List.append_nil hist]
    exact Relation.ReflTransGen.refl

/-- Every book that a run reaches is sound. -/
theorem sound_run (symbolIdx : ℕ) (ops : List BookOp) :
    (run symbolIdx ops).1.Sound (run symbolIdx ops).2 := by
  have halong : Machine.Along Book.step (fun _ _ => True) (new symbolIdx) ops :=
    Machine.along_of_forall (by simp)
  have h := Machine.run_induction (Q := Sound) (h := []) (fun b hist op _ h => h.step op) halong
    (Sound.new symbolIdx)
  simpa using h

end Book

end EuNEx
