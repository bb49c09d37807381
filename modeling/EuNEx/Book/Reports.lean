import EuNEx.Book.Refinement

/-!
# Who hears of a trade

`uncross` reports every trade to its buyer and to its seller. The continuous fill loops report it
to the resting order only: the incoming order gets one last report, with trade id 0, when all is
over. So `newOrder` and `triggerStopOrders` report every trade to both parties exactly when they
make none.
-/

namespace EuNEx

/-- The event is an execution report that tells the order of the trade. -/
def Trade.Tells (t : Trade) (id : ℕ) : BookEvent → Bool
  | .exec r => r.orderId = id && r.tradeId = t.tradeId && r.lastPrice = t.price &&
      r.lastQty = t.quantity
  | _ => false

/-- Every trade is told exactly once to its buyer and exactly once to its seller. -/
def Reported (log : List BookEvent) : Prop :=
  ∀ t ∈ trades log, log.countP (t.Tells t.buyOrderId) = 1 ∧ log.countP (t.Tells t.sellOrderId) = 1

instance (log : List BookEvent) : Decidable (Reported log) :=
  inferInstanceAs (Decidable (∀ t ∈ trades log, _))

/-! ### The auction -/

/-- What the log of an auction keeps: all trades are told, and ids are below the next one. -/
structure Reporting (log : List BookEvent) (nextTradeId : ℕ) : Prop where
  reported : Reported log
  trades_lt : ∀ t ∈ trades log, t.tradeId < nextTradeId
  reports_lt : ∀ r, .exec r ∈ log → r.tradeId < nextTradeId

namespace Reporting

variable {log : List BookEvent} {nextTradeId : ℕ}

lemma nil : Reporting [] nextTradeId := ⟨by simp [Reported], by simp, by simp⟩

/-- A report with another trade id does not tell of the trade. -/
lemma countP_of_ne {t : Trade} (h : ∀ r, .exec r ∈ log → r.tradeId ≠ t.tradeId) (id : ℕ) :
    log.countP (t.Tells id) = 0 := by
  apply List.countP_eq_zero.mpr
  intro ev hev
  cases ev with
  | exec r => simp [Trade.Tells, h r hev]
  | entry o => simp [Trade.Tells]
  | trade t' => simp [Trade.Tells]
  | exit o => simp [Trade.Tells]

/-- A trade with the next id, told to both of its parties. -/
lemma snoc (h : Reporting log nextTradeId) {t : Trade} {r q : ExecutionReport}
    (ht : t.tradeId = nextTradeId) (hne : t.buyOrderId ≠ t.sellOrderId)
    (hr : t.Tells t.buyOrderId (.exec r) = true) (hr' : t.Tells t.sellOrderId (.exec q) = true) :
    Reporting (log ++ [.trade t, .exec r, .exec q]) (nextTradeId + 1) := by
  simp only [Trade.Tells, Bool.and_eq_true, decide_eq_true_eq] at hr hr'
  have htrades : trades (log ++ [.trade t, .exec r, .exec q]) = trades log ++ [t] := by
    rw [trades_append]
    rfl
  refine ⟨?_, ?_, ?_⟩
  · intro t' ht'
    rw [htrades] at ht'
    rcases List.mem_append.mp ht' with ht' | ht'
    · -- the new reports carry the new trade id
      have hlt := h.trades_lt t' ht'
      have hnew : ∀ id, List.countP (t'.Tells id) [.trade t, .exec r, .exec q] = 0 := fun id =>
        countP_of_ne (by
          intro r'' hr''
          simp only [List.mem_cons, reduceCtorEq, BookEvent.exec.injEq, List.not_mem_nil, or_false,
            false_or] at hr''
          rcases hr'' with rfl | rfl <;> omega) id
      simpa only [List.countP_append, hnew, Nat.add_zero] using h.reported t' ht'
    · obtain rfl := List.mem_singleton.mp ht'
      have hold : ∀ id, log.countP (t'.Tells id) = 0 := countP_of_ne fun r'' hr'' => by
        have := h.reports_lt r'' hr''
        omega
      simp only [List.countP_append, hold, Nat.zero_add, List.countP_cons, List.countP_nil,
        Trade.Tells, hr, hr', hne, hne.symm]
      simp
  · intro t' ht'
    rw [htrades] at ht'
    rcases List.mem_append.mp ht' with ht' | ht'
    · exact (h.trades_lt t' ht').trans (Nat.lt_succ_self _)
    · obtain rfl := List.mem_singleton.mp ht'
      omega
  · intro r'' hr''
    simp only [List.mem_append, List.mem_cons, reduceCtorEq, BookEvent.exec.injEq, List.not_mem_nil,
      or_false, false_or] at hr''
    rcases hr'' with hr'' | rfl | rfl
    · exact (h.reports_lt r'' hr'').trans (Nat.lt_succ_self _)
    · omega
    · omega

end Reporting

namespace Book

variable {b : Book} {hist : List BookEvent} {iop : ℤ} {out out' : Outcome} {ask : Order}
  {left : Option Order}

/-- One turn of the ask loop tells of all its trades. -/
lemma Auctioned.reporting {done todo : List Order} (hb : b.Shape)
    (h : Auctioned b out (done ++ ask :: todo))
    (hlog : Reporting out.log out.book.nextTradeId)
    (hask : uncrossAsk iop out ask = some (out', left)) :
    Reporting out'.log out'.book.nextTradeId := by
  obtain ⟨m, bids, hfill, rfl, rfl⟩ := fillAsk_of_uncrossAsk hask
  have hindexed := h.indexed hb.indexed
  have hne : ∀ o ∈ out.book.bids.elems, o.orderId ≠ ask.orderId := by
    rw [coe_middle, Multiset.add_cons] at hindexed
    intro o ho
    exact hindexed.ne_of_mem (by simp [ho])
  have hrule := FillLoop.uncross.fill_invariant ⟨out, ask⟩ (fun _ => iop) h.bids (stops_fillAsk iop)
    (P := fun m' orders' => FillLoop.Fills ⟨out, ask⟩ out.book.bids.elems m' orders' ∧
      Reporting m'.log m'.book.nextTradeId)
    (by
      rintro m' done o todo m'' left traded ⟨hfills, hrep⟩ - ht
      refine ⟨hfills.turn ht, ?_⟩
      obtain ⟨o₀, ho₀, hs, -⟩ := hfills.resting o (by simp)
      rw [ht.log, ht.book]
      have hsnoc := hrep.snoc (t := FillLoop.uncross.trade m'.book m'.incoming o iop traded)
        (r := (Ledger.fill o traded).fillReport iop traded m'.book.nextTradeId)
        (q := (Ledger.fill m'.incoming traded).fillReport iop traded m'.book.nextTradeId) rfl
        (by
          show o.orderId ≠ m'.incoming.orderId
          rw [hs.orderId, hfills.incoming.orderId]
          exact hne o₀ ho₀)
        (by simp [Trade.Tells, FillLoop.uncross, Order.fillReport])
        (by simp [Trade.Tells, FillLoop.uncross, Order.fillReport])
      simpa [FillLoop.uncross] using hsnoc)
    ⟨.refl _ _, hlog⟩
  rw [show FillLoop.uncross.fill _ _ _ _ = (m, bids) from hfill] at hrule
  exact hrule.2

theorem uncross_reported (h : b.Shape) : Reported b.uncross.log := by
  by_cases hiop : b.getIOP = 0
  · simp [uncross, hiop, Reported]
  · have hrule := fillAsks_invariant h b.getIOP
      (P := fun out asks => Auctioned b out asks ∧ Reporting out.log out.book.nextTradeId)
      (fun out done ask todo out' left hP hprice hask =>
        ⟨hP.1.turn h hprice hask, hP.1.reporting h hP.2 hask⟩) ⟨.refl h, .nil⟩
    rw [uncross_eq hiop]
    exact hrule.2.reported

/-! ### Continuous trading -/

/-- Some trade is not told to one of its parties. -/
def Untold (log : List BookEvent) : Prop :=
  ∃ t ∈ trades log, ∃ id, (t.buyOrderId = id ∨ t.sellOrderId = id) ∧
    ∀ r, .exec r ∈ log → r.orderId = id → r.tradeId ≠ t.tradeId

lemma Untold.not_reported {log : List BookEvent} (h : Untold log) : ¬Reported log := by
  obtain ⟨t, ht, id, hparty, hno⟩ := h
  intro hrep
  have hzero : log.countP (t.Tells id) = 0 := by
    apply List.countP_eq_zero.mpr
    intro ev hev htells
    cases ev with
    | exec r =>
      simp only [Trade.Tells, Bool.and_eq_true, decide_eq_true_eq] at htells
      exact hno r hev htells.1.1.1 htells.1.1.2
    | entry o => simp [Trade.Tells] at htells
    | trade t' => simp [Trade.Tells] at htells
    | exit o => simp [Trade.Tells] at htells
  rcases hparty with rfl | rfl
  · have := (hrep t ht).1
    omega
  · have := (hrep t ht).2
    omega

lemma reported_of_trades_nil {log : List BookEvent} (h : trades log = []) : Reported log := by
  simp [Reported, h]

/-- The trade ids of `newOrder`'s log are new ones. -/
lemma Sound.nextTradeId_newOrder (h : b.Sound hist) (order : Order) :
    (b.newOrder order).book.nextTradeId = b.nextTradeId + (b.filledBy order).length := by
  have hbefore : b.nextTradeId = (trades hist).length + 1 := h.laws.provenance.nextTradeId
  have hafter : (b.newOrder order).book.nextTradeId
      = (trades (hist ++ (b.newOrder order).log)).length + 1 :=
    (h.newOrder order).laws.provenance.nextTradeId
  rw [trades_append, List.length_append, trades_newOrder_length h.shape.levels] at hafter
  omega

lemma report_newOrder (hOK : ∀ s, (b.levels s).OK) {order : Order} {r : ExecutionReport}
    (hr : .exec r ∈ (b.newOrder order).log) :
    (r.orderId = b.nextOrderId ∧ r.tradeId = 0) ∨
      (∃ o ∈ b.filledBy order, o.orderId = r.orderId) ∧ b.nextTradeId ≤ r.tradeId := by
  obtain ⟨fills, last, hlog, hfills, hlast⟩ := newOrder_log hOK order
  rw [hlog] at hr
  simp only [List.mem_cons, reduceCtorEq, List.mem_append, false_or] at hr
  rcases hr with hr | hr
  · exact Or.inr (hfills.report hr)
  · rcases hlast _ hr with ⟨o, ho, -⟩ | ⟨r', heq, hid, htrade⟩
    · cases ho
    · cases heq
      exact Or.inl ⟨hid, htrade⟩

/-- The trades of a marketable order are not told to that order: its reports name other trades. -/
lemma Sound.untold_newOrder (h : b.Sound hist) {order : Order} (hm : b.Marketable order) :
    ∃ t ∈ trades (b.newOrder order).log,
      (t.buyOrderId = b.nextOrderId ∨ t.sellOrderId = b.nextOrderId) ∧
      1 ≤ t.tradeId ∧ t.tradeId < (b.newOrder order).book.nextTradeId ∧
      ∀ r, .exec r ∈ hist ++ (b.newOrder order).log → r.orderId = b.nextOrderId →
        r.tradeId ≠ t.tradeId := by
  have hOK := h.shape.levels
  obtain ⟨fills, last, hlog, hfills, hlast⟩ := newOrder_log hOK order
  have hlength : 0 < (trades fills).length := by
    rw [hfills.trades_length, List.length_pos_iff, Ne, filledBy_eq_nil_iff hOK]
    exact not_not.mpr hm
  obtain ⟨t, ht⟩ := List.exists_mem_of_length_pos hlength
  obtain ⟨hparty, -, hle, hlt⟩ := hfills.party (mem_trades.mp ht)
  have hpos : b.nextTradeId = (trades hist).length + 1 := h.laws.provenance.nextTradeId
  refine ⟨t, ?_, hparty, by omega, by rwa [h.nextTradeId_newOrder], ?_⟩
  · rw [mem_trades, hlog]
    simp [mem_trades.mp ht]
  · intro r hr hid htrade
    rcases List.mem_append.mp hr with hr | hr
    · have hknown := h.laws.ids.known _ hr r.orderId rfl
      have hlt' := (h.laws.ids.mem_entryIds_iff.mp hknown).2
      simp only [ledger] at hlt'
      omega
    · rcases report_newOrder hOK hr with ⟨-, hzero⟩ | ⟨⟨o, ho, hoid⟩, -⟩
      · omega
      · have hlive : o ∈ b.live := mem_live.mpr (Or.inl ⟨_, filledBy_subset ho⟩)
        have hlt' : o.orderId < b.nextOrderId := h.laws.ids.live_lt hlive
        omega

/-- `newOrder` tells every trade to both parties exactly if it makes none. -/
theorem reported_newOrder_iff (h : b.Sound hist) (order : Order) :
    Reported (b.newOrder order).log ↔ ¬b.Marketable order := by
  constructor
  · intro hrep hm
    obtain ⟨t, ht, hparty, -, -, hno⟩ := h.untold_newOrder hm
    exact Untold.not_reported ⟨t, ht, _, hparty, fun r hr => hno r (by simp [hr])⟩ hrep
  · intro hm
    refine reported_of_trades_nil (List.length_eq_zero_iff.mp ?_)
    rw [trades_newOrder_length h.shape.levels, (filledBy_eq_nil_iff h.shape.levels).mpr hm]
    rfl

/-- None of the converted stops is marketable when it is entered. -/
def Quiet : Book → List Order → Prop
  | _, [] => True
  | b, stop :: stops =>
    ¬b.Marketable (converted stop) ∧ (b.newOrder (converted stop)).book.Quiet stops

/-- What the rest of the loop over the stops appends names no earlier trade. -/
lemma enterConverted_reports (h : out.Sound hist) (stops : List Order) :
    ∃ evs, (enterConverted out stops).log = out.log ++ evs ∧
      ∀ r, .exec r ∈ evs → r.tradeId = 0 ∨ out.book.nextTradeId ≤ r.tradeId := by
  induction stops generalizing out with
  | nil => exact ⟨[], by simp [enterConverted], by simp⟩
  | cons stop stops ih =>
    obtain ⟨evs, hlog, hevs⟩ := ih (h.convert stop)
    refine ⟨(out.book.newOrder (converted stop)).log ++ evs, ?_, ?_⟩
    · rw [enterConverted_cons, hlog, convert, List.append_assoc]
    · intro r hr
      rcases List.mem_append.mp hr with hr | hr
      · rcases report_newOrder h.shape.levels hr with ⟨-, hzero⟩ | ⟨-, hle⟩
        · exact Or.inl hzero
        · exact Or.inr hle
      · have hnext : (convert out stop).book.nextTradeId = _ :=
          Sound.nextTradeId_newOrder h (converted stop)
        rcases hevs r hr with hzero | hle
        · exact Or.inl hzero
        · exact Or.inr (by omega)

/-- If some converted stop is marketable, its trades stay untold to the end. -/
lemma untold_enterConverted {stops : List Order} (h : out.Sound hist)
    (hloud : ¬out.book.Quiet stops) : Untold (enterConverted out stops).log := by
  induction stops generalizing out with
  | nil => exact absurd trivial hloud
  | cons stop stops ih =>
    by_cases hm : out.book.Marketable (converted stop)
    · obtain ⟨t, ht, hparty, hpos, hlt, hno⟩ := Sound.untold_newOrder h hm
      obtain ⟨evs, hlog, hevs⟩ := enterConverted_reports (h.convert stop) stops
      rw [enterConverted_cons, hlog]
      refine ⟨t, ?_, _, hparty, ?_⟩
      · simp [convert, ht]
      · intro r hr hid
        rcases List.mem_append.mp hr with hr | hr
        · exact hno r (by
            rw [List.append_assoc]
            exact List.mem_append_right _ hr) hid
        · have hlt : t.tradeId < (convert out stop).book.nextTradeId := hlt
          rcases hevs r hr with hzero | hle <;> omega
    · exact ih (h.convert stop) fun hquiet => hloud ⟨hm, hquiet⟩

lemma trades_enterConverted_of_quiet {stops : List Order} (h : out.Sound hist)
    (hquiet : out.book.Quiet stops) :
    trades (enterConverted out stops).log = trades out.log := by
  induction stops generalizing out with
  | nil => rfl
  | cons stop stops ih =>
    have hnone : trades (out.book.newOrder (converted stop)).log = [] := by
      rw [← List.length_eq_zero_iff, trades_newOrder_length h.shape.levels,
        (filledBy_eq_nil_iff h.shape.levels).mpr hquiet.1]
      rfl
    rw [enterConverted_cons, ih (h.convert stop) hquiet.2, convert, trades_append, hnone,
      List.append_nil]

theorem reported_triggerStopOrders_iff (h : b.Sound hist) (tradePrice : ℤ) :
    Reported (b.triggerStopOrders tradePrice).log ↔
      (b.withdrawTriggered tradePrice).book.Quiet (b.triggeredStops tradePrice) := by
  have hout := h.withdrawTriggered tradePrice
  rw [triggerStopOrders_eq]
  constructor
  · intro hrep
    by_contra hloud
    exact (untold_enterConverted hout hloud).not_reported hrep
  · intro hquiet
    apply reported_of_trades_nil
    rw [trades_enterConverted_of_quiet hout hquiet]
    apply List.filterMap_eq_nil_iff.mpr
    intro ev hev
    obtain ⟨o, -, rfl⟩ := List.mem_map.mp hev
    rfl

/-- No order that the operation enters is marketable when it is entered. -/
def EntersQuietly (b : Book) : BookOp → Prop
  | .newOrder order => ¬b.Marketable order
  | .triggerStopOrders tradePrice =>
    (b.withdrawTriggered tradePrice).book.Quiet (b.triggeredStops tradePrice)
  | _ => True

/-- In any reachable book, an operation tells each of its trades once to the buyer and once to the
seller exactly if it is the auction or matches no order that it enters. -/
theorem run_reported_iff (symbolIdx : ℕ) (ops : List BookOp) (op : BookOp) :
    Reported ((run symbolIdx ops).1.step op).2 ↔ (run symbolIdx ops).1.EntersQuietly op := by
  have h := sound_run symbolIdx ops
  cases op with
  | newOrder order => exact reported_newOrder_iff h order
  | triggerStopOrders tradePrice => exact reported_triggerStopOrders_iff h tradePrice
  | uncross => exact iff_of_true (uncross_reported h.shape) trivial
  | cancelOrder _ | cancelStopOrder _ | modifyOrder _ _ _ =>
    exact iff_of_true (reported_of_trades_nil (trades_withdraws h.shape rfl)) trivial
  | setPhase phase => exact iff_of_true (reported_of_trades_nil rfl) trivial

/-- A buyer that takes a resting offer never hears of the trade by its id. -/
theorem not_reported_crossing : ¬∀ (symbolIdx : ℕ) (ops : List BookOp) (op : BookOp),
    Reported ((run symbolIdx ops).1.step op).2 := by
  intro h
  exact absurd (h 1 [.newOrder (dayLimit .sell 10 5 1)] (.newOrder (dayLimit .buy 10 5 2)))
    (by decide)

end Book

end EuNEx
