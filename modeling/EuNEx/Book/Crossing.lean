import EuNEx.Book.Refinement

/-!
# Crossed books

In continuous trading an order rests only after it has traded with everything within its reach,
so the best bid stays below the best ask. `modifyOrder` puts its replacement on the book without
matching; a run with amendments stays uncrossed exactly as long as no amendment reaches an order
on the other side.
-/

namespace EuNEx.Book

variable {b b' : Book} {hist : List BookEvent} {order : Order} {s : Side}

/-- Every bid price is below every ask price. -/
def Uncrossed (b : Book) : Prop := ∀ p ∈ b.bids.keys, ∀ q ∈ b.asks.keys, p < q

instance (b : Book) : Decidable b.Uncrossed :=
  inferInstanceAs (Decidable (∀ p ∈ b.bids.keys, ∀ q ∈ b.asks.keys, p < q))

/-- The best prices decide whether a book is crossed. -/
theorem uncrossed_iff_best : b.Uncrossed ↔
    b.bids.entries = [] ∨ b.asks.entries = [] ∨ b.bestBid < b.bestAsk := by
  obtain hbids | ⟨bid, hbid⟩ := Option.eq_none_or_eq_some b.bids.first?
  · have hnil : b.bids.entries = [] := List.head?_eq_none_iff.mp hbids
    simp [Uncrossed, OrdMap.keys, hnil]
  · obtain hasks | ⟨ask, hask⟩ := Option.eq_none_or_eq_some b.asks.first?
    · have hnil : b.asks.entries = [] := List.head?_eq_none_iff.mp hasks
      simp [Uncrossed, OrdMap.keys, hnil]
    · have hbidmem : bid ∈ b.bids.entries := List.mem_of_mem_head? hbid
      have haskmem : ask ∈ b.asks.entries := List.mem_of_mem_head? hask
      have hbest : b.bestBid = bid.1 ∧ b.bestAsk = ask.1 := by simp [bestBid, bestAsk, hbid, hask]
      rw [hbest.1, hbest.2]
      constructor
      · intro h
        exact Or.inr (Or.inr (h _ (List.mem_map_of_mem hbidmem) _ (List.mem_map_of_mem haskmem)))
      · rintro (hnil | hnil | hlt) p hp q hq
        · simp [hnil] at hbidmem
        · simp [hnil] at haskmem
        · obtain ⟨bid', hbid', rfl⟩ := List.mem_map.mp hp
          obtain ⟨ask', hask', rfl⟩ := List.mem_map.mp hq
          have hle : bid'.1 ≤ bid.1 := by
            rcases OrdMap.first?_le hbid hbid' with rfl | h
            · exact le_rfl
            · exact le_of_lt h
          have hge : ask.1 ≤ ask'.1 := by
            rcases OrdMap.first?_le hask hask' with rfl | h
            · exact le_rfl
            · exact le_of_lt h
          omega

/-- Seen from either side: the resting orders of the other side are out of reach. -/
lemma uncrossed_iff (h : b.Shape) (s : Side) : b.Uncrossed ↔
    ∀ o ∈ b.resting s, ∀ o' ∈ b.resting s.opposite, s.opposite.before o.price o'.price := by
  have hsell : b.Uncrossed ↔ ∀ o ∈ b.resting .buy, ∀ o' ∈ b.resting .sell, o.price < o'.price := by
    constructor
    · intro hu o ho o' ho'
      exact hu _ ((h.levels .buy).price ho) _ ((h.levels .sell).price ho')
    · intro hu p hp q hq
      obtain ⟨o, ho, rfl⟩ := (h.levels .buy).exists_of_mem_keys hp
      obtain ⟨o', ho', rfl⟩ := (h.levels .sell).exists_of_mem_keys hq
      exact hu o ho o' ho'
  rw [hsell]
  cases s with
  | buy => rfl
  | sell => exact ⟨fun hu o ho o' ho' => hu o' ho' o ho, fun hu o ho o' ho' => hu o' ho' o ho⟩

/-! ### New orders -/

/-- Matching leaves of the resting orders what it did not fill. -/
lemma resting_execute (hOK : ∀ s, (b.levels s).OK) (order : Order) (t : Side) :
    ∀ o ∈ (b.enter order).execute.book.resting t,
      ∃ o₀ ∈ b.resting t, o₀.Shrunk o ∧ (o = o₀ ∨ 0 < o.remainingQty) := by
  have hsw := enter_sweeps hOK order
  have hopposite := hsw.opposite
  rw [Side.opposite_opposite] at hopposite
  revert t
  refine (forall_sides (s := order.side)).mpr ⟨fun o ho => ⟨o, ?_, .refl o, Or.inl rfl⟩,
    fun o ho => ?_⟩
  · rw [resting, hopposite] at ho
    cases hside : order.side <;> rw [hside] at ho <;> exact ho
  · obtain ⟨o₀, ho₀, hs⟩ := hsw.resting o ho
    refine ⟨o₀, ?_, hs⟩
    cases hside : order.side <;> rw [hside] at ho₀ <;> exact ho₀

/-- In continuous trading: a resting order after `newOrder` is an old one, possibly with less open,
or the new one, and then it is out of reach of the other side. -/
theorem newOrder_resting (hOK : ∀ s, (b.levels s).OK) (hphase : b.phase = .cts) {t : Side}
    {o' : Order} (ho' : o' ∈ (b.newOrder order).book.resting t) :
    (∃ o ∈ b.resting t, o.Shrunk o' ∧ (o' = o ∨ 0 < o'.remainingQty)) ∨
    (t = order.side ∧ 0 < o'.remainingQty ∧
      ∀ o ∈ (b.newOrder order).book.resting t.opposite, t.opposite.before o'.price o.price) := by
  have hold : ∀ o ∈ b.resting t, ∃ o₀ ∈ b.resting t, o₀.Shrunk o ∧ (o = o₀ ∨ 0 < o.remainingQty) :=
    fun o ho => ⟨o, ho, .refl o, Or.inl rfl⟩
  rcases b.newOrder_cases order with ⟨-, -, h⟩ | ⟨-, hne, -, h⟩ | ⟨-, h⟩ | ⟨-, h⟩
  · rw [h] at ho'
    exact Or.inl (hold o' (by cases t <;> exact ho'))
  · exact absurd hphase hne
  · rw [h] at ho'
    exact Or.inl (hold o' (by cases t <;> exact ho'))
  · have hsw := enter_sweeps hOK order
    have hshrunk := resting_execute hOK order
    set m := (b.enter order).execute with hm
    rw [h] at ho' ⊢
    rcases m.settle_book with ⟨hbook, -⟩ | ⟨hpos, hmarket, -, status, hbook⟩
    · rw [hbook] at ho'
      exact Or.inl (hshrunk t o' ho')
    · rw [hbook] at ho' ⊢
      rcases mem_resting_insertResting.mp ho' with ho' | ⟨rfl, rfl⟩
      · exact Or.inl (hshrunk t o' ho')
      · have hside : m.incoming.side = order.side := hsw.incoming.side
        refine Or.inr ⟨hside, hpos, fun o ho => ?_⟩
        rcases mem_resting_insertResting.mp ho with ho | ⟨-, hne⟩
        · rcases hsw.exit with hz | hout
          · omega
          · rw [hside] at ho ⊢
            have hreach := hout o ho
            simpa [Order.Reaches, hmarket] using hreach
        · exact absurd hne (Side.ne_opposite _)

/-- What continuous trading keeps: the book is uncrossed, and orders with an id from `n` on rest
with something left. -/
structure Continuous (n : ℕ) (b : Book) : Prop where
  phase : b.phase = .cts
  uncrossed : b.Uncrossed
  positive : ∀ s, ∀ o ∈ b.resting s, n ≤ o.orderId → 0 < o.remainingQty

namespace Continuous

variable {n : ℕ}

lemma newOrder (h : b.Continuous n) (hb : b.Sound hist) (order : Order) :
    (b.newOrder order).book.Continuous n := by
  have hOK := hb.shape.levels
  have hshape := (hb.newOrder order).shape
  refine ⟨by rw [(newOrder_frame hOK).2.1, h.phase], ?_, ?_⟩
  · rw [uncrossed_iff hshape .buy]
    intro o ho o' ho'
    rcases newOrder_resting hOK h.phase ho with ⟨o₀, ho₀, hs₀, -⟩ | ⟨-, -, hout⟩
    · rcases newOrder_resting hOK h.phase ho' with ⟨o₁, ho₁, hs₁, -⟩ | ⟨-, -, hout⟩
      · rw [hs₀.price, hs₁.price]
        exact (uncrossed_iff hb.shape .buy).mp h.uncrossed o₀ ho₀ o₁ ho₁
      · exact hout o ho
    · exact hout o' ho'
  · intro s o' ho' hn
    rcases newOrder_resting hOK h.phase ho' with ⟨o, ho, hs, rfl | hpos⟩ | ⟨-, hpos, -⟩
    · exact h.positive s o' ho hn
    · exact hpos
    · exact hpos

/-- Taking orders off the book does no harm. -/
lemma of_subset (h : b.Continuous n) (hb : b.Shape) (hb' : b'.Shape) (hphase : b'.phase = b.phase)
    (hsub : ∀ s, ∀ o ∈ b'.resting s, o ∈ b.resting s) : b'.Continuous n := by
  refine ⟨hphase.trans h.phase, ?_, fun s o ho hn => h.positive s o (hsub s o ho) hn⟩
  rw [uncrossed_iff hb' .buy]
  intro o ho o' ho'
  exact (uncrossed_iff hb .buy).mp h.uncrossed o (hsub _ o ho) o' (hsub _ o' ho')

lemma cancel (h : b.Continuous n) (hb : b.Shape) {op : BookOp} (hop : op.withdraws = true)
    (hmodify : op.isModify = false) : (b.outcome op).book.Continuous n := by
  rcases hb.outcome_cases hop with hout | ⟨id, c, hc, hout | ⟨htrue, -⟩⟩
  · rwa [hout]
  · rw [hout]
    exact h.of_subset hb (hc.shape hb) hc.phase hc.resting_subset
  · simp [hmodify] at htrue

lemma enterConverted {out : Outcome} {stops : List Order} (h : out.book.Continuous n)
    (hout : out.Sound hist) : (enterConverted out stops).book.Continuous n := by
  induction stops generalizing out with
  | nil => exact h
  | cons stop stops ih => exact ih (h.newOrder hout (converted stop)) (hout.convert stop)

lemma triggerStopOrders (h : b.Continuous n) (hb : b.Sound hist) (tradePrice : ℤ) :
    (b.triggerStopOrders tradePrice).book.Continuous n := by
  have hout := hb.withdrawTriggered tradePrice
  refine enterConverted (h.of_subset hb.shape hout.shape rfl fun s o ho => ?_) hout
  cases s <;> exact ho

lemma step (h : b.Continuous n) (hb : b.Sound hist) {op : BookOp} (hop : op.isContinuous = true) :
    (b.step op).1.Continuous n := by
  show (b.outcome op).book.Continuous n
  cases op with
  | newOrder order => exact h.newOrder hb order
  | cancelOrder _ | cancelStopOrder _ => exact h.cancel hb.shape rfl rfl
  | triggerStopOrders tradePrice => exact h.triggerStopOrders hb tradePrice
  | modifyOrder orderId newPrice newQty => simp [BookOp.isContinuous] at hop
  | uncross => simp [BookOp.isContinuous] at hop
  | setPhase phase => simp [BookOp.isContinuous] at hop

end Continuous

lemma Sound.continuous (h : b.Sound hist) (hphase : b.phase = .cts) (hu : b.Uncrossed) :
    b.Continuous b.nextOrderId := by
  refine ⟨hphase, hu, fun s o ho hn => ?_⟩
  have hlt : o.orderId < b.nextOrderId :=
    h.laws.ids.live_lt (show o ∈ b.live from mem_live.mpr (Or.inl ⟨s, ho⟩))
  omega

/-- From any reachable book in continuous trading that is not crossed, no sequence of orders,
cancels and triggers leads to a crossed book, and every order inserted on the way rests with
something left. -/
theorem run_uncrossed (symbolIdx : ℕ) (before : List BookOp) (b : Book)
    (hb : b = (run symbolIdx before).1) (hphase : b.phase = .cts)
    (hbest : b.bids.entries = [] ∨ b.asks.entries = [] ∨ b.bestBid < b.bestAsk)
    (ops : List BookOp) (hops : ∀ op ∈ ops, op.isContinuous = true) :
    (Machine.run step b ops).1.Uncrossed ∧ ∀ s, ∀ o ∈ (Machine.run step b ops).1.resting s,
      b.nextOrderId ≤ o.orderId → 0 < o.remainingQty := by
  have hsound : b.Sound (run symbolIdx before).2 := hb ▸ sound_run symbolIdx before
  have hstart := hsound.continuous hphase (uncrossed_iff_best.mpr hbest)
  have halong : Machine.Along Book.step (fun _ op => op.isContinuous = true) b ops :=
    Machine.along_of_forall hops
  have hrun := Machine.run_induction (h := (run symbolIdx before).2)
    (Q := fun b' hist => b'.Sound hist ∧ b'.Continuous b.nextOrderId)
    (fun b' hist op hop hQ => ⟨hQ.1.step op, hQ.2.step hQ.1 hop⟩)
    halong ⟨hsound, hstart⟩
  exact ⟨hrun.2.uncrossed, hrun.2.positive⟩

/-- A buyer takes out the offer and rests above the old bid, which is then cancelled. -/
theorem run_uncrossed_sweep :
    let before : List BookOp :=
      [.newOrder (dayLimit .sell 12 5 1), .newOrder (dayLimit .buy 10 5 1)]
    let b := (run 1 before).1
    let ops : List BookOp := [.newOrder (dayLimit .buy 13 8 2), .cancelOrder 2]
    (Machine.run step b ops).1.Uncrossed ∧ ∀ s, ∀ o ∈ (Machine.run step b ops).1.resting s,
      b.nextOrderId ≤ o.orderId → 0 < o.remainingQty :=
  run_uncrossed 1 _ _ rfl (by decide) (by decide) _ (by decide)

/-! ### Amendments -/

/-- The side that `modifyOrder` gives the replacement: it looks up the last price of the cancel
report, which is 0, among the bids that are left. -/
def amendSide (b : Book) (id : ℕ) : Side :=
  if ∃ o ∈ b.resting .buy, o.orderId ≠ id ∧ o.price = 0 then .buy else .sell

/-- The price stays short of every order of side `s`, the amended order itself left aside. -/
def ShortOf (b : Book) (s : Side) (id : ℕ) (price : ℤ) : Prop :=
  ∀ o ∈ b.resting s, o.orderId ≠ id → s.before price o.price

/-- The amended price reaches the other side neither for the side that the replacement gets nor,
unless the new quantity is zero, for the side of the amended order. -/
def AmendShort (b : Book) : BookOp → Prop
  | .modifyOrder id newPrice newQty => ∀ o ∈ b.live, o.orderId = id →
    b.ShortOf (b.amendSide id).opposite id newPrice ∧
      (newQty = 0 ∨ b.ShortOf o.side.opposite id newPrice)
  | _ => True

/-- The amended order as a new order. -/
def amended (o : Order) (newPrice : ℤ) (newQty : ℕ) : Order :=
  { o with ordType := .limit, tif := .day, price := newPrice, quantity := newQty }

/-- An amendment makes the trades that the amended order would make as a new order. -/
def AmendTrades (b : Book) : BookOp → Prop
  | .modifyOrder id newPrice newQty => ∀ c, b.cancelOrder id = some c →
    trades (b.step (.modifyOrder id newPrice newQty)).2
      = trades (c.book.newOrder (amended c.removed newPrice newQty)).log
  | _ => True

lemma Removes.mem_resting {id : ℕ} {c : Cancel} {o : Order} (h : b.Removes id c)
    (hb : b.Sound hist) : o ∈ c.book.resting s ↔ o ∈ b.resting s ∧ o.orderId ≠ id := by
  constructor
  · intro ho
    have hlive : o ∈ c.book.live := Book.mem_live.mpr (Or.inl ⟨s, ho⟩)
    exact ⟨h.resting_subset s o ho, h.orderId ▸ hb.laws.ids.ne_of_mem_rest h.live hlive⟩
  · rintro ⟨ho, hid⟩
    cases h with
    | stop o' stops hid' hmem hperm hsub => cases s <;> exact ho
    | resting t o' levels hid' hperm hOK =>
      revert ho
      refine (forall_sides (s := t)
        (P := fun s => o ∈ b.resting s → o ∈ (Cancel.book _).resting s)).mpr ⟨?_, ?_⟩ s
      · intro ho
        rcases List.mem_cons.mp (hperm.mem_iff.mp ho) with rfl | ho
        · exact absurd hid' hid
        · simpa using ho
      · intro ho
        simpa using ho

section

variable {id : ℕ} {newPrice : ℤ} {newQty : ℕ} {c : Cancel}

lemma replacement_side (hb : b.Sound hist) (hc : b.Removes id c) (newPrice : ℤ) (newQty : ℕ) :
    (c.book.replacement c.report newPrice newQty).side = b.amendSide id := by
  have hlast : c.report.lastPrice = 0 := by cases hc <;> rfl
  have hbids := (hc.shape hb.shape).levels .buy
  have hiff : c.book.bids.contains 0 = true
      ↔ ∃ o ∈ b.resting .buy, o.orderId ≠ id ∧ o.price = 0 := by
    rw [OrdMap.contains_iff]
    constructor
    · intro hkey
      obtain ⟨o, ho, hprice⟩ := hbids.exists_of_mem_keys hkey
      obtain ⟨ho, hid⟩ := (hc.mem_resting hb (s := .buy)).mp ho
      exact ⟨o, ho, hid, hprice⟩
    · rintro ⟨o, ho, hid, hprice⟩
      exact hprice ▸ hbids.price ((hc.mem_resting hb (s := .buy)).mpr ⟨ho, hid⟩)
  simp only [replacement, hlast, amendSide, hiff]

/-- An amendment leaves the book uncrossed exactly if the replacement stays short of the other
side. -/
lemma uncrossed_replaced (hb : b.Sound hist) (hu : b.Uncrossed) (hc : b.Removes id c) :
    (c.replaced newPrice newQty).book.Uncrossed
      ↔ b.ShortOf (b.amendSide id).opposite id newPrice := by
  have hshape : (c.replaced newPrice newQty).book.Shape := (hb.replaced hc newPrice newQty).shape
  have hside := replacement_side hb hc newPrice newQty
  set o := c.book.replacement c.report newPrice newQty with ho
  have hmem : ∀ s o', o' ∈ (c.replaced newPrice newQty).book.resting s
      ↔ (o' ∈ b.resting s ∧ o'.orderId ≠ id) ∨ (o' = o ∧ b.amendSide id = s) := by
    intro s o'
    rw [Cancel.replaced, mem_resting_insertResting, hside, ← hc.mem_resting hb]
    cases s <;> rfl
  rw [uncrossed_iff hshape (b.amendSide id)]
  constructor
  · intro h o' ho' hid
    exact h o ((hmem _ _).mpr (Or.inr ⟨rfl, rfl⟩)) o' ((hmem _ _).mpr (Or.inl ⟨ho', hid⟩))
  · intro h o₁ ho₁ o₂ ho₂
    rcases (hmem _ _).mp ho₂ with ⟨ho₂, hid₂⟩ | ⟨-, hne⟩
    · rcases (hmem _ _).mp ho₁ with ⟨ho₁, -⟩ | ⟨rfl, -⟩
      · exact (uncrossed_iff hb.shape _).mp hu o₁ ho₁ o₂ ho₂
      · exact h o₂ ho₂ hid₂
    · exact absurd hne (Side.ne_opposite _)

/-- An amendment misses no trade exactly if the amended order stays short of the other side. -/
lemma amendTrades_iff (hb : b.Sound hist) (hphase : b.phase = .cts)
    (hc : b.cancelOrder id = some c) :
    b.AmendTrades (.modifyOrder id newPrice newQty) ↔
      newQty = 0 ∨ b.ShortOf c.removed.side.opposite id newPrice := by
  have hrem := removes_of_cancelOrder hb.shape hc
  have hOK := (hrem.shape hb.shape).levels
  have hnone : trades (b.step (.modifyOrder id newPrice newQty)).2 = [] :=
    trades_withdraws hb.shape rfl
  have hex : c.book.Executes (amended c.removed newPrice newQty) :=
    ⟨rfl, hrem.phase.trans hphase, by simp [amended]⟩
  simp only [AmendTrades, hc, Option.some.injEq, forall_eq', hnone]
  rw [eq_comm, ← List.length_eq_zero_iff, trades_newOrder_length hOK, List.length_eq_zero_iff,
    filledBy, if_pos hex, fills_eq_nil_iff (hOK _)]
  apply or_congr Iff.rfl
  simp only [ShortOf, hrem.mem_resting hb, Order.Reaches, entered, amended, ne_eq, reduceCtorEq,
    not_false_eq_true, true_implies, not_not, and_imp]

end

/-- The order that a removal takes is the one with this id. -/
lemma Removes.eq_removed {id : ℕ} {c : Cancel} {o : Order} (h : b.Removes id c)
    (hb : b.Sound hist) (ho : o ∈ b.live) (hid : o.orderId = id) : o = c.removed := by
  rw [h.live] at ho
  rcases Multiset.mem_cons.mp ho with rfl | ho
  · rfl
  · exact absurd (hid.trans h.orderId.symm) (hb.laws.ids.ne_of_mem_rest h.live ho)

lemma amend_modifyOrder_iff (hb : b.Sound hist) (hphase : b.phase = .cts) (hu : b.Uncrossed)
    (id : ℕ) (newPrice : ℤ) (newQty : ℕ) :
    (b.step (.modifyOrder id newPrice newQty)).1.Uncrossed ∧
      b.AmendTrades (.modifyOrder id newPrice newQty) ↔
    b.AmendShort (.modifyOrder id newPrice newQty) := by
  cases hc : b.cancelOrder id with
  | none =>
    have hstep : (b.step (.modifyOrder id newPrice newQty)).1 = b :=
      congrArg Outcome.book (outcome_modifyOrder_none hc)
    have hlive := (cancelOrder_eq_none_iff hb.shape).mp hc
    rw [hstep]
    exact ⟨fun _ o ho hid => absurd hid (hlive o ho), fun _ => ⟨hu, by simp [AmendTrades, hc]⟩⟩
  | some c =>
    have hrem := removes_of_cancelOrder hb.shape hc
    have hstep : (b.step (.modifyOrder id newPrice newQty)).1 = (c.replaced newPrice newQty).book :=
      congrArg Outcome.book (outcome_modifyOrder_some hc)
    rw [hstep, uncrossed_replaced hb hu hrem, amendTrades_iff hb hphase hc]
    constructor
    · rintro hshort o ho hid
      rwa [hrem.eq_removed hb ho hid]
    · intro hshort
      exact hshort c.removed hrem.mem_live hrem.orderId

/-- One step keeps the book uncrossed and trades as it should exactly if it is no amendment that
reaches the other side. -/
lemma amend_iff (hb : b.Sound hist) (hphase : b.phase = .cts) (hu : b.Uncrossed) {op : BookOp}
    (hop : op.isContinuous = true ∨ op.isModify = true) :
    (b.step op).1.Uncrossed ∧ b.AmendTrades op ↔ b.AmendShort op := by
  cases op with
  | modifyOrder id newPrice newQty => exact amend_modifyOrder_iff hb hphase hu id newPrice newQty
  | uncross => simp [BookOp.isContinuous, BookOp.isModify] at hop
  | setPhase phase => simp [BookOp.isContinuous, BookOp.isModify] at hop
  | newOrder _ | cancelOrder _ | cancelStopOrder _ | triggerStopOrders _ =>
    exact iff_of_true ⟨((hb.continuous hphase hu).step hb rfl).uncrossed, trivial⟩ trivial

lemma enterConverted_phase {out : Outcome} {stops : List Order} (h : out.Sound hist) :
    (enterConverted out stops).book.phase = out.book.phase := by
  induction stops generalizing out with
  | nil => rfl
  | cons stop stops ih =>
    rw [enterConverted_cons, ih (h.convert stop)]
    exact (newOrder_frame h.shape.levels).2.1

lemma phase_withdraws (h : b.Shape) {op : BookOp} (hop : op.withdraws = true) :
    (b.outcome op).book.phase = b.phase := by
  rcases h.outcome_cases hop with hout | ⟨id, c, hc, hout | ⟨-, newPrice, newQty, hout⟩⟩
  · rw [hout]
  · rw [hout]
    exact hc.phase
  · rw [hout]
    exact insertResting_phase.trans hc.phase

/-- Orders, cancels, triggers and amendments leave the phase alone. -/
lemma phase_step (hb : b.Sound hist) {op : BookOp}
    (hop : op.isContinuous = true ∨ op.isModify = true) : (b.step op).1.phase = b.phase := by
  show (b.outcome op).book.phase = b.phase
  cases op with
  | newOrder order => exact (newOrder_frame hb.shape.levels).2.1
  | cancelOrder _ | cancelStopOrder _ | modifyOrder _ _ _ => exact phase_withdraws hb.shape rfl
  | triggerStopOrders tradePrice =>
    exact enterConverted_phase (hb.withdrawTriggered tradePrice)
  | uncross => simp [BookOp.isContinuous, BookOp.isModify] at hop
  | setPhase phase => simp [BookOp.isContinuous, BookOp.isModify] at hop

/-- A run in continuous trading stays uncrossed, with every amendment trading as a new order at
its price would, exactly as long as no amendment reaches the other side. -/
theorem run_amend_iff (symbolIdx : ℕ) (ops : List BookOp)
    (hops : ∀ op ∈ ops, op.isContinuous = true ∨ op.isModify = true) :
    Machine.Throughout step Uncrossed (new symbolIdx) ops ∧
      Machine.Along step AmendTrades (new symbolIdx) ops ↔
    Machine.Along step AmendShort (new symbolIdx) ops :=
  Machine.throughout_along_iff
    (A := fun _ op => op.isContinuous = true ∨ op.isModify = true)
    (I := fun b => (∃ hist, b.Sound hist) ∧ b.phase = .cts)
    (fun _ op hop ⟨⟨_, hb⟩, hphase⟩ => ⟨⟨_, hb.step op⟩, (phase_step hb hop).trans hphase⟩)
    (fun _ _ hop ⟨⟨_, hb⟩, hphase⟩ hu => amend_iff hb hphase hu hop)
    (Machine.along_of_forall hops) ⟨⟨_, Sound.new symbolIdx⟩, rfl⟩
    (by simp [Uncrossed, new, OrdMap.keys])

/-- An offer at 12 is amended to 11, still above the bid. -/
theorem run_amend_iff_short :
    let ops : List BookOp := [.newOrder (dayLimit .buy 10 5 1), .newOrder (dayLimit .sell 12 5 1),
      .modifyOrder 2 11 5]
    Machine.Throughout step Uncrossed (new 1) ops ∧ Machine.Along step AmendTrades (new 1) ops ↔
      Machine.Along step AmendShort (new 1) ops :=
  run_amend_iff 1 _ (by decide)

/-- An offer at 12 is amended to 9 and comes to rest below the bid at 10. -/
theorem run_amend_crossed : ¬∀ (symbolIdx : ℕ) (ops : List BookOp),
    (∀ op ∈ ops, op.isContinuous = true ∨ op.isModify = true) →
    Machine.Throughout step Uncrossed (new symbolIdx) ops := by
  intro h
  have hlast := (h 1 [.newOrder (dayLimit .buy 10 5 1), .newOrder (dayLimit .sell 12 5 1),
    .modifyOrder 2 9 5] (by decide)).2.2.2
  exact absurd (show Uncrossed _ from hlast) (by decide)

end EuNEx.Book
