import EuNEx.Book.Resting

/-!
# Quantities that are zero

Continuous trading never puts an order to rest with nothing left. Where an order comes to rest
without matching, its quantity is taken as it is, and an order of quantity zero that rests is
traded with like any other, for nothing. So all trades have a positive quantity as long as no such
order comes to rest.
-/

namespace EuNEx.Book

variable {b : Book} {hist : List BookEvent}

/-- Something is open. -/
def somethingOpen : Terms := fun _ _ q => 0 < q

lemma somethingOpen_lasting : somethingOpen.Lasting where
  shrunk _ _ hpos := hpos
  rests hpos _ _ _ := hpos

/-- Every trade has a positive quantity. -/
def PositiveTrades (log : List BookEvent) : Prop := ∀ t ∈ trades log, 0 < t.quantity

instance (log : List BookEvent) : Decidable (PositiveTrades log) :=
  inferInstanceAs (Decidable (∀ t ∈ trades log, _))

lemma positiveTrades_append {log log' : List BookEvent} :
    PositiveTrades (log ++ log') ↔ PositiveTrades log ∧ PositiveTrades log' := by
  simp [PositiveTrades, or_imp, forall_and]

lemma positive_newOrder (hOK : ∀ s, (b.levels s).OK) (h : AllRest somethingOpen b)
    (order : Order) : PositiveTrades (b.newOrder order).log := by
  intro t ht
  obtain ⟨o, ho, hfilled⟩ := exists_filled (newOrder_filled hOK order) ht
  have hpos : 0 < o.remainingQty := h _ o (filledBy_subset ho)
  apply Nat.pos_of_ne_zero
  intro hz
  exact hpos.ne' (hfilled.quantity.mp hz)

lemma positive_enterConverted {out : Outcome} {stops : List Order} (hout : out.Sound hist)
    (hrest : AllRest somethingOpen out.book) (hadmits : out.book.Accumulates →
      ∀ stop ∈ stops, somethingOpen (converted stop).ordType stop.tif stop.remainingQty)
    (h : PositiveTrades out.log) : PositiveTrades (enterConverted out stops).log := by
  induction stops generalizing out with
  | nil => exact h
  | cons stop stops ih =>
    have hOK := hout.shape.levels
    have hphase : (convert out stop).book.phase = out.book.phase := (newOrder_frame hOK).2.1
    have hstep : AllRest somethingOpen (convert out stop).book :=
      (allRest_newOrder somethingOpen_lasting hOK hrest).mpr
        fun hacc _ => hadmits hacc stop (by simp)
    apply ih (hout.convert stop) hstep
    · intro hacc stop' hstop'
      rw [Accumulates, hphase] at hacc
      exact hadmits hacc stop' (by simp [hstop'])
    · exact positiveTrades_append.mpr ⟨h, positive_newOrder hOK hrest _⟩

/-- One ask of the auction is filled from bids that all have something open. -/
lemma positive_fillAsk (iop : ℤ) {out : Outcome} (ask : Order) (hOK : out.book.bids.OK)
    (hbids : ∀ o ∈ out.book.bids.elems, 0 < o.remainingQty) (h : PositiveTrades out.log) :
    (∀ o ∈ (fillAsk iop out ask).2.elems, 0 < o.remainingQty) ∧
      PositiveTrades (fillAsk iop out ask).1.log := by
  refine (FillLoop.uncross.fill_invariant ⟨out, ask⟩ (fun _ => iop) hOK (stops_fillAsk iop)
    (P := fun m orders => (∀ o ∈ orders, 0 < o.remainingQty) ∧ PositiveTrades m.log) ?_ ⟨hbids, h⟩)
  rintro m done o todo m' left traded ⟨hpos, htrades⟩ - ht
  constructor
  · intro o' ho'
    simp only [List.mem_append, Option.mem_toList] at ho'
    rcases ho' with ho' | rfl | ho'
    · exact hpos o' (by simp [ho'])
    · exact ht.pos
    · exact hpos o' (by simp [ho'])
  · have hqty : 0 < traded := by
      rw [ht.qty_eq]
      exact lt_min (Nat.pos_of_ne_zero ht.open') (hpos o (by simp))
    rw [ht.log, List.append_assoc, positiveTrades_append]
    refine ⟨htrades, ?_⟩
    intro t ht'
    simp only [FillLoop.uncross, trades, BookEvent.trade?, if_true, List.cons_append,
      List.nil_append, List.filterMap_cons, List.filterMap_nil, List.mem_singleton] at ht'
    rw [ht']
    exact hqty

lemma positive_uncross (h : b.Shape) (hrest : AllRest somethingOpen b) :
    PositiveTrades b.uncross.log := by
  by_cases hiop : b.getIOP = 0
  · simp [uncross, hiop, PositiveTrades]
  · have hinv := fillAsks_invariant h b.getIOP
      (P := fun out _ => out.book.bids.OK ∧ (∀ o ∈ out.book.bids.elems, 0 < o.remainingQty) ∧
        PositiveTrades out.log)
      (by
        rintro out done ask todo out' left ⟨hOK, hbids, htrades⟩ - hask
        obtain ⟨m, bids, hfill, rfl, rfl⟩ := fillAsk_of_uncrossAsk hask
        have hok := FillLoop.uncross.fill_ok ⟨out, ask⟩ (fun _ => b.getIOP)
          (fun m bidPrice => bidPrice < b.getIOP || m.incoming.remainingQty = 0) hOK
        have hpositive := positive_fillAsk b.getIOP ask hOK hbids htrades
        rw [hfill] at hpositive
        rw [show FillLoop.uncross.fill _ _ _ _ = (m, bids) from hfill] at hok
        exact ⟨hok, hpositive⟩)
      ⟨h.levels .buy, hrest .buy, by simp [PositiveTrades]⟩
    rw [uncross_eq hiop]
    exact hinv.2.2

lemma positive_withdraws (h : b.Shape) {op : BookOp} (hop : op.withdraws = true) :
    PositiveTrades (b.step op).2 := by
  intro t ht
  have hnone : trades (b.step op).2 = [] := trades_withdraws h hop
  simp [hnone] at ht

/-- Where all resting orders have something open, a step that admits only such orders makes only
trades of positive quantity. -/
theorem positive_step (hb : b.Sound hist) (h : AllRest somethingOpen b) {op : BookOp}
    (hadmits : Admits somethingOpen b op) : PositiveTrades (b.step op).2 := by
  cases op with
  | newOrder order => exact positive_newOrder hb.shape.levels h order
  | uncross => exact positive_uncross hb.shape h
  | triggerStopOrders tradePrice =>
    exact positive_enterConverted (hb.withdrawTriggered tradePrice)
      (h.of_subset fun s o ho => by cases s <;> exact ho) hadmits
      (by simp [PositiveTrades, mem_trades])
  | setPhase phase => simp [Book.step, outcome, PositiveTrades]
  | cancelOrder id => exact positive_withdraws hb.shape rfl
  | cancelStopOrder id => exact positive_withdraws hb.shape rfl
  | modifyOrder id newPrice newQty => exact positive_withdraws hb.shape rfl

/-- Every trade has a positive quantity, and every resting order something open, exactly as long as
nothing is put on the book with quantity zero before the opening or by an amendment. -/
theorem run_positive_iff (symbolIdx : ℕ) (ops : List BookOp) :
    Machine.Throughout step (AllRest somethingOpen) (new symbolIdx) ops ∧
        PositiveTrades (run symbolIdx ops).2 ↔
      Machine.Along step (Admits somethingOpen) (new symbolIdx) ops := by
  apply throughout_allRest_and_iff somethingOpen_lasting
  · simp [PositiveTrades]
  · intro b hist op hb hrest hadmits hpositive
    exact positiveTrades_append.mpr ⟨hpositive, positive_step hb hrest hadmits⟩

/-- A sell amended to quantity zero rests, and the next buy trades with it for nothing. -/
theorem not_positive_amend : ¬(
    Machine.Throughout step (AllRest somethingOpen) (new 1)
      [.newOrder (dayLimit .sell 10 5 1), .modifyOrder 1 10 0,
        .newOrder (dayLimit .buy 10 5 2)] ∧
    PositiveTrades (run 1
      [.newOrder (dayLimit .sell 10 5 1), .modifyOrder 1 10 0,
        .newOrder (dayLimit .buy 10 5 2)]).2) := by
  rintro ⟨-, hpositive⟩
  exact absurd hpositive (by decide)

end EuNEx.Book
