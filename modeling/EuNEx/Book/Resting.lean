import EuNEx.Book.Crossing
import EuNEx.Book.Fills

/-!
# What comes to rest

In continuous trading an order comes to rest only if it has something left after matching, is no
market order, and may stay. Before the opening `newOrder` puts every order on the book as it is,
stops convert to such orders, and `modifyOrder` always puts its replacement on the book as it is.
So a property of order type, time in force and open quantity that all other resting orders have is
an invariant of the book exactly if the orders put to rest in these three ways have it.
-/

namespace EuNEx.Book

variable {b b' : Book} {hist : List BookEvent} {order o' : Order}

/-- In these phases a new order is added to the book without matching. -/
def Accumulates (b : Book) : Prop := b.phase = .preOpen ∨ b.phase = .opening

instance (b : Book) : Decidable b.Accumulates := inferInstanceAs (Decidable (_ ∨ _))

lemma newOrder_stop (h : order.ordType.isStop = true) :
    b.newOrder order = (b.enter order).park := by
  apply if_pos
  cases ht : order.ordType <;> simp_all [OrderType.isStop]

lemma not_stop (h : order.ordType.isStop = false) :
    ¬(order.ordType = .stopMarket ∨ order.ordType = .stopLimit) := by
  cases ht : order.ordType <;> simp_all [OrderType.isStop]

lemma newOrder_accumulate (hexec : order.ordType.isStop = false) (h : b.Accumulates) :
    b.newOrder order = (b.enter order).accumulate := by
  rw [Accumulates] at h
  rw [newOrder, if_neg (not_stop hexec), if_pos h]

lemma newOrder_closed (hexec : order.ordType.isStop = false) (h : b.phase = .closed) :
    b.newOrder order = (b.enter order).reject := by
  simp [newOrder, not_stop hexec, h]

lemma resting_accumulate (b : Book) (order : Order) {s : Side} :
    o' ∈ (b.enter order).accumulate.book.resting s ↔
      o' ∈ b.resting s ∨ (o' = b.entered order ∧ order.side = s) := by
  show o' ∈ ((b.enter order).book.insertResting (b.entered order)).resting s ↔ _
  rw [mem_resting_insertResting, resting_enter]
  rfl

/-- Only stops are parked. -/
lemma stopOrders_newOrder_of_executable (hOK : ∀ s, (b.levels s).OK)
    (hexec : order.ordType.isStop = false) : (b.newOrder order).book.stopOrders = b.stopOrders := by
  rcases b.newOrder_cases order with ⟨hstop, -, -⟩ | ⟨-, -, -, h⟩ | ⟨-, h⟩ | ⟨-, h⟩
  · simp [hexec] at hstop
  · rw [h]
    exact insertResting_stopOrders
  · rw [h]
    rfl
  · have hsw := (enter_sweeps hOK order).stopOrders
    rw [h]
    rcases (b.enter order).execute.settle_book with ⟨hbook, -⟩ | ⟨-, -, -, status, hbook⟩
    · rw [hbook]
      exact hsw
    · rw [hbook, insertResting_stopOrders]
      exact hsw

/-- A resting order after `newOrder` is an old one, possibly with less open, or the new order: as
it was entered where orders accumulate, and otherwise with something left and free to stay. -/
theorem mem_resting_newOrder (hOK : ∀ s, (b.levels s).OK) {s : Side}
    (ho' : o' ∈ (b.newOrder order).book.resting s) :
    (∃ o ∈ b.resting s, o.Shrunk o' ∧ (o' = o ∨ 0 < o'.remainingQty)) ∨
    (b.Accumulates ∧ order.ordType.isStop = false ∧ o' = b.entered order) ∨
    (0 < o'.remainingQty ∧ o'.ordType ≠ .market ∧ o'.tif ≠ .ioc ∧ o'.tif ≠ .fok) := by
  have hold : ∀ o ∈ b.resting s, ∃ o₀ ∈ b.resting s, o₀.Shrunk o ∧ (o = o₀ ∨ 0 < o.remainingQty) :=
    fun o ho => ⟨o, ho, .refl o, Or.inl rfl⟩
  rcases b.newOrder_cases order with ⟨-, -, h⟩ | ⟨hexec, hphase, -, h⟩ | ⟨-, h⟩ | ⟨hex, h⟩
  · rw [h] at ho'
    exact Or.inl (hold o' (by cases s <;> exact ho'))
  · by_cases hclosed : b.phase = .closed
    · rw [newOrder_closed hexec hclosed] at ho'
      exact Or.inl (hold o' (by cases s <;> exact ho'))
    · have hacc : b.Accumulates := by
        cases hp : b.phase <;> simp_all [Accumulates]
      rw [h, resting_accumulate] at ho'
      rcases ho' with ho' | ⟨rfl, -⟩
      · exact Or.inl (hold o' ho')
      · exact Or.inr (Or.inl ⟨hacc, hexec, rfl⟩)
  · rw [h] at ho'
    exact Or.inl (hold o' (by cases s <;> exact ho'))
  · have hshrunk := resting_execute hOK order s
    have hinc : (b.entered order).Shrunk (b.enter order).execute.incoming :=
      (enter_sweeps hOK order).incoming
    rw [h] at ho'
    rcases (b.enter order).execute.settle_book with
      ⟨hbook, -⟩ | ⟨hpos, hmarket, hioc, status, hbook⟩
    · rw [hbook] at ho'
      exact Or.inl (hshrunk o' ho')
    · rw [hbook, mem_resting_insertResting] at ho'
      rcases ho' with ho' | ⟨rfl, -⟩
      · exact Or.inl (hshrunk o' ho')
      · refine Or.inr (Or.inr ⟨hpos, hmarket, hioc, fun hfok => ?_⟩)
        have htif : order.tif = .fok := by
          rw [hinc.eq] at hfok
          exact hfok
        exact hpos.ne' (fok_filled hOK hex htif)

/-! ### The auction -/

/-- A resting order after the auction is an old one, possibly with less open. -/
theorem mem_resting_uncross (h : b.Shape) {s : Side} (ho' : o' ∈ b.uncross.book.resting s) :
    ∃ o ∈ b.resting s, o.Shrunk o' ∧ (o' = o ∨ 0 < o'.remainingQty) := by
  by_cases hiop : b.getIOP = 0
  · have hbook : b.uncross = ⟨b, []⟩ := by simp [uncross, hiop]
    rw [hbook] at ho'
    exact ⟨o', ho', .refl o', Or.inl rfl⟩
  · have hinv := fillAsks_invariant h b.getIOP
      (P := fun out offers => out.book.bids.OK ∧
        (∀ o' ∈ out.book.bids.elems,
          ∃ o ∈ b.resting .buy, o.Shrunk o' ∧ (o' = o ∨ 0 < o'.remainingQty)) ∧
        ∀ o' ∈ offers, ∃ o ∈ b.resting .sell, o.Shrunk o' ∧ (o' = o ∨ 0 < o'.remainingQty))
      (by
        rintro out done ask todo out' left ⟨hOK, hbids, hoffers⟩ - hask
        obtain ⟨m, bids, hfill, rfl, rfl⟩ := fillAsk_of_uncrossAsk hask
        have hok := FillLoop.uncross.fill_ok ⟨out, ask⟩ (fun _ => b.getIOP)
          (fun m bidPrice => bidPrice < b.getIOP || m.incoming.remainingQty = 0) hOK
        have hfills := FillLoop.uncross.fill_fills ⟨out, ask⟩ (fun _ => b.getIOP) hOK
          (stops_fillAsk b.getIOP)
        rw [show FillLoop.uncross.fill _ _ _ _ = (m, bids) from hfill] at hok hfills
        refine ⟨hok, fun o' ho' => ?_, fun o' ho' => ?_⟩
        · obtain ⟨o₁, ho₁, hs₁, hpos⟩ := hfills.resting o' ho'
          rcases hpos with rfl | hpos
          · exact hbids o' ho₁
          · obtain ⟨o, ho, hs, -⟩ := hbids o₁ ho₁
            exact ⟨o, ho, hs.trans hs₁, Or.inr hpos⟩
        · simp only [List.mem_append, Option.mem_toList] at ho'
          rcases ho' with ho' | ho' | ho'
          · exact hoffers o' (by simp [ho'])
          · split at ho'
            · cases ho'
            · rename_i hne
              cases ho'
              obtain ⟨o, ho, hs, -⟩ := hoffers ask (by simp)
              exact ⟨o, ho, hs.trans hfills.incoming, Or.inr (Nat.pos_of_ne_zero hne)⟩
          · exact hoffers o' (by simp [ho']))
      ⟨h.levels .buy, fun o ho => ⟨o, ho, .refl o, Or.inl rfl⟩,
        fun o ho => ⟨o, ho, .refl o, Or.inl rfl⟩⟩
    rw [uncross_eq hiop] at ho'
    cases s with
    | buy => exact hinv.2.1 o' ho'
    | sell => exact hinv.2.2 o' ho'

/-! ### Invariants of the resting orders -/

/-- A property of order type, time in force and open quantity. -/
abbrev Terms := OrderType → TimeInForce → ℕ → Prop

/-- Orders that continuous trading puts to rest have the property, and fills do not lose it. -/
structure Terms.Lasting (R : Terms) : Prop where
  shrunk : ∀ {ordType tif q q'}, R ordType tif q → q' ≤ q → 0 < q' → R ordType tif q'
  rests : ∀ {ordType tif q}, 0 < q → ordType ≠ .market → tif ≠ .ioc → tif ≠ .fok →
    R ordType tif q

/-- All resting orders have the property. -/
def AllRest (R : Terms) (b : Book) : Prop :=
  ∀ s, ∀ o ∈ b.resting s, R o.ordType o.tif o.remainingQty

/-- Every order that the operation puts on the book without matching has the property: a new order
or a converted stop before the opening, and the replacement of an amended order. -/
def Admits (R : Terms) (b : Book) : BookOp → Prop
  | .newOrder order => b.Accumulates → order.ordType.isStop = false →
    R order.ordType order.tif order.quantity
  | .triggerStopOrders tradePrice => b.Accumulates → ∀ stop ∈ b.triggeredStops tradePrice,
    R (converted stop).ordType stop.tif stop.remainingQty
  | .modifyOrder id _ newQty => (∃ o ∈ b.live, o.orderId = id) → R .limit .day newQty
  | _ => True

section

variable {R : Terms}

lemma AllRest.of_shrunk (hR : R.Lasting) (h : AllRest R b)
    (hshrunk : ∀ s, ∀ o' ∈ b'.resting s,
      ∃ o ∈ b.resting s, o.Shrunk o' ∧ (o' = o ∨ 0 < o'.remainingQty)) : AllRest R b' := by
  intro s o' ho'
  obtain ⟨o, ho, hs, rfl | hpos⟩ := hshrunk s o' ho'
  · exact h s o' ho
  · have hshrink := hR.shrunk (h s o ho) hs.le hpos
    rw [hs.eq]
    exact hshrink

lemma AllRest.of_subset (h : AllRest R b) (hsub : ∀ s, ∀ o ∈ b'.resting s, o ∈ b.resting s) :
    AllRest R b' :=
  fun s o ho => h s o (hsub s o ho)

lemma allRest_newOrder (hR : R.Lasting) (hOK : ∀ s, (b.levels s).OK) (h : AllRest R b) :
    AllRest R (b.newOrder order).book ↔ Admits R b (.newOrder order) := by
  constructor
  · intro hall hacc hexec
    rw [newOrder_accumulate hexec hacc] at hall
    exact hall order.side (b.entered order) ((resting_accumulate b order).mpr (Or.inr ⟨rfl, rfl⟩))
  · intro hadmits s o' ho'
    rcases mem_resting_newOrder hOK ho' with ⟨o, ho, hs, rfl | hpos⟩ | ⟨hacc, hexec, rfl⟩ | hrests
    · exact h s o' ho
    · have hshrink := hR.shrunk (h s o ho) hs.le hpos
      rw [hs.eq]
      exact hshrink
    · exact hadmits hacc hexec
    · exact hR.rests hrests.1 hrests.2.1 hrests.2.2.1 hrests.2.2.2

lemma converted_not_stop (stop : Order) : (converted stop).ordType.isStop = false := by
  rw [converted]
  by_cases hs : stop.ordType = .stopMarket <;> simp [hs, OrderType.isStop]

/-- Before the opening, conversions leave all that rests on the book. -/
lemma resting_enterConverted {out : Outcome} {stops : List Order} (hout : out.Sound hist)
    (hacc : out.book.Accumulates) {s : Side} {o : Order} (ho : o ∈ out.book.resting s) :
    o ∈ (enterConverted out stops).book.resting s := by
  induction stops generalizing out with
  | nil => exact ho
  | cons stop stops ih =>
    have hphase : (convert out stop).book.phase = out.book.phase :=
      (newOrder_frame hout.shape.levels).2.1
    apply ih (hout.convert stop)
    · rwa [Accumulates, hphase]
    · show o ∈ (out.book.newOrder (converted stop)).book.resting s
      rw [newOrder_accumulate (converted_not_stop stop) hacc, resting_accumulate]
      exact Or.inl ho

lemma allRest_enterConverted (hR : R.Lasting) {out : Outcome} {stops : List Order}
    (hout : out.Sound hist) (h : AllRest R out.book) :
    AllRest R (enterConverted out stops).book ↔ (out.book.Accumulates → ∀ stop ∈ stops,
      R (converted stop).ordType stop.tif stop.remainingQty) := by
  induction stops generalizing out with
  | nil => simpa [enterConverted] using h
  | cons stop stops ih =>
    have hOK := hout.shape.levels
    have hphase : (convert out stop).book.phase = out.book.phase := (newOrder_frame hOK).2.1
    have hacc : (convert out stop).book.Accumulates ↔ out.book.Accumulates := by
      rw [Accumulates, Accumulates, hphase]
    have hstep : AllRest R (convert out stop).book ↔ (out.book.Accumulates →
        R (converted stop).ordType stop.tif stop.remainingQty) := by
      rw [convert, allRest_newOrder hR hOK h]
      exact forall_congr' fun _ => ⟨fun hadmits => hadmits (converted_not_stop stop),
        fun hadmits _ => hadmits⟩
    rw [enterConverted_cons]
    constructor
    · intro hall hacc'
      have hconvert : AllRest R (convert out stop).book :=
        hall.of_subset fun s o ho =>
          resting_enterConverted (hout.convert stop) (hacc.mpr hacc') ho
      have hrest := (ih (hout.convert stop) hconvert).mp hall (hacc.mpr hacc')
      intro stop' hstop'
      rcases List.mem_cons.mp hstop' with rfl | hstop'
      · exact hstep.mp hconvert hacc'
      · exact hrest stop' hstop'
    · intro hall
      apply (ih (hout.convert stop) (hstep.mpr fun hacc' => hall hacc' stop (by simp))).mpr
      intro hacc' stop' hstop'
      exact hall (hacc.mp hacc') stop' (by simp [hstop'])

lemma allRest_replaced {id : ℕ} {c : Cancel} (h : AllRest R b)
    (hc : b.Removes id c) (newPrice : ℤ) (newQty : ℕ) :
    AllRest R (c.replaced newPrice newQty).book ↔ R .limit .day newQty := by
  set o := c.book.replacement c.report newPrice newQty with ho
  have hmem : ∀ s o', o' ∈ (c.replaced newPrice newQty).book.resting s
      ↔ o' ∈ c.book.resting s ∨ (o' = o ∧ o.side = s) := by
    intro s o'
    rw [Cancel.replaced, mem_resting_insertResting]
    cases s <;> rfl
  constructor
  · intro hall
    exact hall o.side o ((hmem _ _).mpr (Or.inr ⟨rfl, rfl⟩))
  · intro hnew s o' ho'
    rcases (hmem _ _).mp ho' with ho' | ⟨rfl, -⟩
    · exact h s o' (hc.resting_subset s o' ho')
    · exact hnew

/-- One step keeps the property exactly if it admits only orders that have it. -/
theorem allRest_step_iff (hR : R.Lasting) (hb : b.Sound hist) (h : AllRest R b) (op : BookOp) :
    AllRest R (b.step op).1 ↔ Admits R b op := by
  have hremoves : ∀ {id c}, b.Removes id c → AllRest R c.outcome.book :=
    fun hc => h.of_subset hc.resting_subset
  show AllRest R (b.outcome op).book ↔ _
  cases op with
  | newOrder order => exact allRest_newOrder hR hb.shape.levels h
  | cancelOrder id =>
    apply iff_of_true _ trivial
    cases hc : b.cancelOrder id with
    | none => rwa [outcome_cancelOrder_none hc]
    | some c =>
      rw [outcome_cancelOrder_some hc]
      exact hremoves (removes_of_cancelOrder hb.shape hc)
  | cancelStopOrder id =>
    apply iff_of_true _ trivial
    cases hc : b.cancelStopOrder id with
    | none => rwa [outcome_cancelStopOrder_none hc]
    | some c =>
      rw [outcome_cancelStopOrder_some hc]
      exact hremoves (removes_of_cancelStopOrder hc)
  | modifyOrder id newPrice newQty =>
    cases hc : b.cancelOrder id with
    | none =>
      rw [outcome_modifyOrder_none hc]
      have hnone := (cancelOrder_eq_none_iff hb.shape).mp hc
      exact iff_of_true h fun ⟨o, ho, hid⟩ => absurd hid (hnone o ho)
    | some c =>
      have hrem := removes_of_cancelOrder hb.shape hc
      rw [outcome_modifyOrder_some hc, allRest_replaced h hrem]
      exact ⟨fun hnew _ => hnew, fun hnew => hnew ⟨c.removed, hrem.mem_live, hrem.orderId⟩⟩
  | uncross =>
    exact iff_of_true (h.of_shrunk hR fun s o' ho' => mem_resting_uncross hb.shape ho') trivial
  | triggerStopOrders tradePrice =>
    have hstart : AllRest R (b.withdrawTriggered tradePrice).book :=
      h.of_subset fun s o ho => by cases s <;> exact ho
    exact allRest_enterConverted hR (hb.withdrawTriggered tradePrice) hstart
  | setPhase phase =>
    exact iff_of_true (h.of_subset fun s o ho => by cases s <;> exact ho) trivial

lemma allRest_new (symbolIdx : ℕ) : AllRest R (new symbolIdx) := by
  intro s o ho
  cases s <;> cases ho

/-- All resting orders have the property throughout a run exactly if all of its steps admit only
orders that have it. -/
theorem throughout_allRest_iff (hR : R.Lasting) (symbolIdx : ℕ) (ops : List BookOp) :
    Machine.Throughout step (AllRest R) (new symbolIdx) ops ↔
      Machine.Along step (Admits R) (new symbolIdx) ops :=
  Machine.throughout_iff_along (I := fun b => ∃ hist, b.Sound hist)
    (fun _ op ⟨_, hb⟩ => ⟨_, hb.step op⟩) (fun _ op ⟨_, hb⟩ h => allRest_step_iff hR hb h op)
    ⟨_, Sound.new symbolIdx⟩ (allRest_new symbolIdx)

/-- The history of such a run has every property that its steps keep. -/
theorem throughout_allRest_and_iff (hR : R.Lasting) {P : List BookEvent → Prop} (hnil : P [])
    (hstep : ∀ {b hist op}, b.Sound hist → AllRest R b → Admits R b op → P hist →
      P (hist ++ (b.step op).2)) (symbolIdx : ℕ) (ops : List BookOp) :
    Machine.Throughout step (AllRest R) (new symbolIdx) ops ∧ P (run symbolIdx ops).2 ↔
      Machine.Along step (Admits R) (new symbolIdx) ops := by
  have hiff := throughout_allRest_iff hR symbolIdx ops
  constructor
  · rintro ⟨hrest, -⟩
    exact hiff.mp hrest
  · intro hadmits
    refine ⟨hiff.mpr hadmits, ?_⟩
    have hrun := Machine.run_induction (h := [])
      (Q := fun b hist => b.Sound hist ∧ AllRest R b ∧ P hist)
      (fun b hist op hC hQ => ⟨hQ.1.step op, (allRest_step_iff hR hQ.1 hQ.2.1 op).mpr hC,
        hstep hQ.1 hQ.2.1 hC hQ.2.2⟩)
      hadmits ⟨Sound.new symbolIdx, allRest_new symbolIdx, hnil⟩
    rw [List.nil_append] at hrun
    exact hrun.2.2

end

end EuNEx.Book
