import EuNEx.Book.Resting

/-!
# Trading phases

What the phases let through. Outside continuous trading nothing trades, before the opening orders
accumulate, and after the close orders are rejected, except that `newOrder` parks a stop order
before it looks at the phase. Orders that may not rest do rest if they come in before the opening.
-/

namespace EuNEx.Book

variable {b : Book} {hist : List BookEvent} {order : Order}

/-! ### The gates -/

/-- The order is rejected, and nothing on the book moves. -/
structure Refuses (b b' : Book) (log : List BookEvent) : Prop where
  told : ∃ r, .exec r ∈ log ∧ r.orderId = b.nextOrderId
  rejected : ∀ r, .exec r ∈ log → r.status = .rejected
  levels : ∀ s, b'.levels s = b.levels s
  stopOrders : b'.stopOrders = b.stopOrders
  lastTradePrice : b'.lastTradePrice = b.lastTradePrice

/-- What the phase of the book asks of a step. -/
def Gated (b : Book) (op : BookOp) : Prop :=
  match op with
  | .newOrder order =>
    (b.phase ≠ .cts → trades (b.step op).2 = []) ∧
    (b.Accumulates → order.ordType.isStop = false → ∀ s o', o' ∈ (b.step op).1.resting s ↔
      o' ∈ b.resting s ∨ (o' = b.entered order ∧ order.side = s)) ∧
    (b.phase = .closed → Refuses b (b.step op).1 (b.step op).2)
  | .triggerStopOrders _ =>
    (b.phase ≠ .cts → trades (b.step op).2 = []) ∧
    (b.Accumulates → ∀ e, .entry e ∈ (b.step op).2 → e ∈ (b.step op).1.resting e.side) ∧
    (b.phase = .closed → (∀ r, .exec r ∈ (b.step op).2 → r.status = .rejected) ∧
      (∀ s, (b.step op).1.levels s = b.levels s) ∧ (b.step op).1.lastTradePrice = b.lastTradePrice)
  | _ => True

/-- No stop order comes in after the close. -/
def NoStopAfterClose (b : Book) : BookOp → Prop
  | .newOrder order => b.phase = .closed → order.ordType.isStop = false
  | _ => True

lemma trades_newOrder_of_phase (hOK : ∀ s, (b.levels s).OK) (h : b.phase ≠ .cts) :
    trades (b.newOrder order).log = [] := by
  have hnone : b.filledBy order = [] := if_neg fun hex => h hex.2.1
  have hfilled := newOrder_filled hOK order
  rw [hnone] at hfilled
  exact List.forall₂_nil_left_iff.mp hfilled

lemma refuses_newOrder (hexec : order.ordType.isStop = false) (h : b.phase = .closed) :
    Refuses b (b.newOrder order).book (b.newOrder order).log := by
  rw [newOrder_closed hexec h]
  refine ⟨⟨(b.entered order).report .rejected 0 order.quantity, by
    simp [Matching.reject, enter, entered], rfl⟩, ?_, fun s => by cases s <;> rfl, rfl, rfl⟩
  intro r hr
  simp only [Matching.reject, enter, List.cons_append, List.nil_append, List.mem_cons,
    reduceCtorEq, BookEvent.exec.injEq, List.not_mem_nil, or_false, false_or] at hr
  rw [hr]
  rfl

lemma gated_newOrder_iff (hOK : ∀ s, (b.levels s).OK) :
    Gated b (.newOrder order) ↔ NoStopAfterClose b (.newOrder order) := by
  constructor
  · rintro ⟨-, -, hrefuses⟩ hclosed
    by_contra hstop
    have hpark : b.newOrder order = (b.enter order).park := newOrder_stop (by simpa using hstop)
    have hreject := (hrefuses hclosed).rejected ((b.entered order).report .new 0 order.quantity)
      (by
        show _ ∈ (b.newOrder order).log
        rw [hpark]
        simp [Matching.park, enter, entered])
    cases hreject
  · intro hbarred
    refine ⟨fun hphase => trades_newOrder_of_phase hOK hphase, fun hacc hexec s o' => ?_,
      fun hclosed => refuses_newOrder (hbarred hclosed) hclosed⟩
    show o' ∈ (b.newOrder order).book.resting s ↔ _
    rw [newOrder_accumulate hexec hacc, resting_accumulate]

/-- Outside continuous trading, converted stops trade no more than new orders. -/
lemma trades_enterConverted {out : Outcome} {stops : List Order} (hout : out.Sound hist)
    (h : out.book.phase ≠ .cts) : trades (enterConverted out stops).log = trades out.log := by
  induction stops generalizing out with
  | nil => rfl
  | cons stop stops ih =>
    have hOK := hout.shape.levels
    have hphase : (convert out stop).book.phase = out.book.phase := (newOrder_frame hOK).2.1
    rw [enterConverted_cons, ih (hout.convert stop) (hphase ▸ h), convert, trades_append,
      trades_newOrder_of_phase hOK h, List.append_nil]

lemma entries_enterConverted {out : Outcome} {stops : List Order} (hout : out.Sound hist)
    (hacc : out.book.Accumulates) {e : Order}
    (he : .entry e ∈ (enterConverted out stops).log) :
    .entry e ∈ out.log ∨ e ∈ (enterConverted out stops).book.resting e.side := by
  induction stops generalizing out with
  | nil => exact Or.inl he
  | cons stop stops ih =>
    have hOK := hout.shape.levels
    have hphase : (convert out stop).book.phase = out.book.phase := (newOrder_frame hOK).2.1
    have hacc' : (convert out stop).book.Accumulates := by rwa [Accumulates, hphase]
    rcases ih (hout.convert stop) hacc' he with he | he
    · rcases List.mem_append.mp he with he | he
      · exact Or.inl he
      · rw [entry_newOrder hOK he]
        apply Or.inr
        apply resting_enterConverted (hout.convert stop) hacc'
        show _ ∈ (out.book.newOrder (converted stop)).book.resting _
        rw [newOrder_accumulate (converted_not_stop stop) hacc, resting_accumulate]
        exact Or.inr ⟨rfl, rfl⟩
    · exact Or.inr he

lemma refuses_enterConverted {out : Outcome} (stops : List Order) (hout : out.Sound hist)
    (h : out.book.phase = .closed) :
    (∀ r, .exec r ∈ (enterConverted out stops).log → .exec r ∈ out.log ∨ r.status = .rejected) ∧
      (∀ s, (enterConverted out stops).book.levels s = out.book.levels s) ∧
      (enterConverted out stops).book.lastTradePrice = out.book.lastTradePrice := by
  induction stops generalizing out with
  | nil => exact ⟨fun r hr => Or.inl hr, fun s => rfl, rfl⟩
  | cons stop stops ih =>
    have hphase : (convert out stop).book.phase = out.book.phase :=
      (newOrder_frame hout.shape.levels).2.1
    have hrefuses := refuses_newOrder (converted_not_stop stop) h
    obtain ⟨hreports, hlevels, hlast⟩ := ih (hout.convert stop) (hphase.trans h)
    refine ⟨fun r hr => ?_, fun s => (hlevels s).trans (hrefuses.levels s),
      hlast.trans hrefuses.lastTradePrice⟩
    rcases hreports r hr with hr | hr
    · rcases List.mem_append.mp hr with hr | hr
      · exact Or.inl hr
      · exact Or.inr (hrefuses.rejected r hr)
    · exact Or.inr hr

/-- A step does what its phase asks exactly if it brings in no stop order after the close. -/
theorem gated_iff (hb : b.Sound hist) (op : BookOp) : Gated b op ↔ NoStopAfterClose b op := by
  cases op with
  | newOrder order => exact gated_newOrder_iff hb.shape.levels
  | triggerStopOrders tradePrice =>
    apply iff_of_true _ trivial
    have hout := hb.withdrawTriggered tradePrice
    refine ⟨fun hphase => ?_, fun hacc e he => ?_, fun hclosed => ?_⟩
    · show trades (enterConverted (b.withdrawTriggered tradePrice) _).log = []
      rw [trades_enterConverted hout hphase]
      simp [withdrawTriggered, trades, BookEvent.trade?, List.filterMap_eq_nil_iff]
    · rcases entries_enterConverted hout hacc he with he | he
      · simp [withdrawTriggered] at he
      · exact he
    · obtain ⟨hreports, hlevels, hlast⟩ := refuses_enterConverted
        (b.triggeredStops tradePrice) hout hclosed
      refine ⟨fun r hr => ?_, fun s => (hlevels s).trans (by cases s <;> rfl), hlast⟩
      rcases hreports r hr with hr | hr
      · simp [withdrawTriggered] at hr
      · exact hr
  | _ => exact Iff.rfl

/-- The phases gate a run exactly as long as no stop order comes in after the close. -/
theorem run_gated_iff (symbolIdx : ℕ) (ops : List BookOp) :
    Machine.Along step Gated (new symbolIdx) ops ↔
      Machine.Along step NoStopAfterClose (new symbolIdx) ops :=
  Machine.along_congr (I := fun b => ∃ hist, b.Sound hist)
    (fun _ op ⟨_, hb⟩ => ⟨_, hb.step op⟩) (fun _ op ⟨_, hb⟩ => gated_iff hb op)
    ⟨_, Sound.new symbolIdx⟩

/-- A stop order that comes in after the close is parked. -/
theorem not_gated_stop : ¬Machine.Along step Gated (new 1)
    [.setPhase .closed,
      .newOrder { dayLimit .buy 0 5 1 with ordType := .stopMarket, stopPrice := 10 }] := by
  rintro ⟨-, ⟨-, -, hrefuses⟩, -⟩
  exact absurd (hrefuses rfl).stopOrders (by decide)

/-! ### Orders that may not rest -/

/-- Market, IOC and FOK orders may not stay on the book. -/
def mayStay : Terms := fun ordType tif _ => ordType ≠ .market ∧ tif ≠ .ioc ∧ tif ≠ .fok

lemma mayStay_lasting : mayStay.Lasting where
  shrunk h _ _ := h
  rests _ hmarket hioc hfok := ⟨hmarket, hioc, hfok⟩

/-- The two entries are the orders of the trade. -/
def Parties (t : Trade) (e e' : Order) : Prop :=
  (t.buyOrderId = e.orderId ∧ t.sellOrderId = e'.orderId) ∨
    (t.buyOrderId = e'.orderId ∧ t.sellOrderId = e.orderId)

/-- A market order trades only with orders that were there before it: none trades against a market
order that rests. -/
def MarketTakes (log : List BookEvent) : Prop :=
  ∀ t e e', .trade t ∈ log → .entry e ∈ log → .entry e' ∈ log → Parties t e e' →
    e.ordType = .market → e'.orderId < e.orderId

section

variable {b' : Book} {evs : List BookEvent} {e o : Order}

/-- An entry under an id that was handed out before is an old one. -/
lemma Sound.entry_old (hb' : b'.Sound (hist ++ evs))
    (he : .entry e ∈ hist ++ evs) (hid : e.orderId ∈ entryIds hist) : .entry e ∈ hist := by
  obtain ⟨e₀, he₀, hid₀⟩ := mem_entryIds.mp hid
  rwa [entry_unique hb'.laws.ids.entryIds_nodup he (List.mem_append_left _ he₀) hid₀.symm]

/-- The entry of an order that the book answered for before. -/
lemma Sound.entry_tracks (hb : b.Sound hist) (hb' : b'.Sound (hist ++ evs)) (ho : o ∈ b.live)
    (he : .entry e ∈ hist ++ evs) (hid : e.orderId = o.orderId) : Ledger.Tracks e o := by
  have hold := Sound.entry_old hb' he (hid ▸ hb.laws.ids.live_mem_entryIds ho)
  exact hb.laws.ids.tracks_of_entry ho hold hid

/-- It is enough to look at the new trades. -/
lemma MarketTakes.append (h : MarketTakes hist) (hb : b.Sound hist)
    (hb' : b'.Sound (hist ++ evs))
    (hnew : ∀ t e e', .trade t ∈ evs → .trade t ∉ hist → .entry e ∈ hist ++ evs →
      .entry e' ∈ hist ++ evs → Parties t e e' → e.ordType = .market → e'.orderId < e.orderId) :
    MarketTakes (hist ++ evs) := by
  intro t e e' ht he he' hparties hmarket
  by_cases hold : .trade t ∈ hist
  · have hknown : t.buyOrderId ∈ entryIds hist ∧ t.sellOrderId ∈ entryIds hist :=
      ⟨hb.laws.ids.known _ hold _ (Or.inl rfl), hb.laws.ids.known _ hold _ (Or.inr rfl)⟩
    have hids : e.orderId ∈ entryIds hist ∧ e'.orderId ∈ entryIds hist := by
      rcases hparties with ⟨h₁, h₂⟩ | ⟨h₁, h₂⟩
      · exact ⟨h₁ ▸ hknown.1, h₂ ▸ hknown.2⟩
      · exact ⟨h₂ ▸ hknown.2, h₁ ▸ hknown.1⟩
    exact h t e e' hold (Sound.entry_old hb' he hids.1) (Sound.entry_old hb' he' hids.2) hparties
      hmarket
  · exact hnew t e e' ((List.mem_append.mp ht).resolve_left hold) hold he he' hparties hmarket

/-- A new order trades with resting orders, and these are no market orders. -/
lemma MarketTakes.newOrder (h : MarketTakes hist) (hb : b.Sound hist) (hrest : AllRest mayStay b)
    (order : Order) : MarketTakes (hist ++ (b.newOrder order).log) := by
  have hb' := hb.newOrder order
  refine h.append hb hb' fun t e e' ht _ he he' hparties hmarket => ?_
  obtain ⟨o, ho, hfilled⟩ :=
    exists_filled (newOrder_filled hb.shape.levels order) (mem_trades.mpr ht)
  have hresting := filledBy_subset ho
  have hlive : o ∈ b.live := mem_live.mpr (Or.inl ⟨_, hresting⟩)
  have hlt : o.orderId < b.nextOrderId := hb.laws.ids.live_lt hlive
  have hne : e.orderId ≠ o.orderId := by
    intro hid
    have htracks := hb.entry_tracks hb' hlive he hid
    exact (hrest _ o hresting).1 (htracks.ordType.trans hmarket)
  have hids : e.orderId = b.nextOrderId ∧ e'.orderId = o.orderId := by
    rcases hparties with ⟨h₁, h₂⟩ | ⟨h₁, h₂⟩ <;>
      rcases hfilled.party with ⟨h₃, h₄⟩ | ⟨h₃, h₄⟩ <;> omega
  rw [hids.1, hids.2]
  exact hlt

lemma MarketTakes.enterConverted {out : Outcome} {stops : List Order}
    (h : MarketTakes (hist ++ out.log)) (hout : out.Sound hist) (hrest : AllRest mayStay out.book)
    (hadmits : out.book.Accumulates → ∀ stop ∈ stops,
      mayStay (converted stop).ordType stop.tif stop.remainingQty) :
    MarketTakes (hist ++ (enterConverted out stops).log) := by
  induction stops generalizing out with
  | nil => exact h
  | cons stop stops ih =>
    have hOK := hout.shape.levels
    have hphase : (convert out stop).book.phase = out.book.phase := (newOrder_frame hOK).2.1
    have htakes := MarketTakes.newOrder h hout hrest (converted stop)
    rw [List.append_assoc] at htakes
    have hstep : AllRest mayStay (convert out stop).book :=
      (allRest_newOrder mayStay_lasting hOK hrest).mpr
        fun hacc _ => hadmits hacc stop (by simp)
    apply ih htakes (hout.convert stop) hstep
    intro hacc stop' hstop'
    rw [Accumulates, hphase] at hacc
    exact hadmits hacc stop' (by simp [hstop'])

/-- The auction trades among resting orders. -/
lemma MarketTakes.uncross (h : MarketTakes hist) (hb : b.Sound hist) (hrest : AllRest mayStay b) :
    MarketTakes (hist ++ b.uncross.log) := by
  have hb' := hb.step .uncross
  refine h.append hb hb' fun t e e' ht hnew he _ hparties hmarket => ?_
  have hnone : ∀ o ∈ b.live, o.ordType.isStop = false → e.orderId ≠ o.orderId := by
    intro o ho hexec hid
    have htracks := hb.entry_tracks hb' ho he hid
    rcases mem_live.mp ho with ⟨s, hresting⟩ | hparked
    · exact (hrest s o hresting).1 (htracks.ordType.trans hmarket)
    · simp [hb.shape.parked o hparked] at hexec
  obtain ⟨o, ho, o', ho', hbetween, hexec, hexec'⟩ :=
    ((Ledger.trade_live (uncross_steps hb.shape hist) (uncross_nextOrderId hb.shape)).2 t
      (List.mem_append_right _ ht)).resolve_left hnew
  rcases hparties with ⟨hid, -⟩ | ⟨-, hid⟩
  · exact absurd (hid.symm.trans hbetween.buyOrderId) (hnone o ho hexec)
  · exact absurd (hid.symm.trans hbetween.sellOrderId) (hnone o' ho' hexec')

lemma MarketTakes.withdraws (h : MarketTakes hist) (hb : b.Sound hist) {op : BookOp}
    (hop : op.withdraws = true) : MarketTakes (hist ++ (b.step op).2) := by
  refine h.append hb (hb.step op) fun t e e' ht => ?_
  have hnone : t ∈ trades (b.outcome op).log := mem_trades.mpr ht
  simp [trades_withdraws hb.shape hop] at hnone

/-- A step that admits no order that may not rest lets no market order rest and be hit. -/
lemma MarketTakes.step (h : MarketTakes hist) (hb : b.Sound hist) (hrest : AllRest mayStay b)
    {op : BookOp} (hadmits : Admits mayStay b op) : MarketTakes (hist ++ (b.step op).2) := by
  cases op with
  | newOrder order => exact h.newOrder hb hrest order
  | uncross => exact h.uncross hb hrest
  | triggerStopOrders tradePrice =>
    have hstart : MarketTakes (hist ++ (b.withdrawTriggered tradePrice).log) :=
      h.append hb (hb.withdrawTriggered tradePrice) fun t e e' ht => by
        simp [withdrawTriggered] at ht
    exact hstart.enterConverted (hb.withdrawTriggered tradePrice)
      (hrest.of_subset fun s o ho => by cases s <;> exact ho) hadmits
  | setPhase phase => simpa [Book.step, outcome] using h
  | cancelOrder _ | cancelStopOrder _ | modifyOrder _ _ _ => exact h.withdraws hb rfl

end

/-- No immediate order ever rests, and no order trades against a resting market order, exactly as
long as none is put on the book before the opening. -/
theorem run_immediate_iff (symbolIdx : ℕ) (ops : List BookOp) :
    Machine.Throughout step (AllRest mayStay) (new symbolIdx) ops ∧
        MarketTakes (run symbolIdx ops).2 ↔
      Machine.Along step (Admits mayStay) (new symbolIdx) ops := by
  apply throughout_allRest_and_iff mayStay_lasting
  · simp [MarketTakes]
  · intro b hist op hb hrest hadmits htakes
    exact htakes.step hb hrest hadmits

/-- A market order that comes in before the opening rests. -/
theorem not_immediate_preOpen : ¬(
    Machine.Throughout step (AllRest mayStay) (new 1)
      [.setPhase .preOpen, .newOrder { dayLimit .buy 10 5 1 with ordType := .market }] ∧
    MarketTakes (run 1
      [.setPhase .preOpen, .newOrder { dayLimit .buy 10 5 1 with ordType := .market }]).2) := by
  rintro ⟨⟨-, -, hrest⟩, -⟩
  exact (hrest .buy _ (List.head_mem (by decide))).1 (by decide)

end EuNEx.Book
