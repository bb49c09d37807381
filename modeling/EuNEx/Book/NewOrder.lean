import EuNEx.Book.Shape

/-!
# Entering an order

The four ways in which `newOrder` ends, and what follows for its log: the entry, then a trade and
a report for each order it is filled from, then a last report on the order itself.
-/

namespace EuNEx

namespace Book

variable {b : Book} {order : Order}

/-- The order gets as far as the matching. -/
def Executes (b : Book) (order : Order) : Prop :=
  order.ordType.isStop = false ∧ b.phase = .cts ∧
    (order.tif = .fok → order.quantity ≤ b.available order)

instance (b : Book) (order : Order) : Decidable (b.Executes order) :=
  inferInstanceAs (Decidable (_ ∧ _ ∧ (_ → _)))

/-- The ways through `newOrder`. -/
theorem newOrder_cases (b : Book) (order : Order) :
    (order.ordType.isStop = true ∧ ¬b.Executes order ∧ b.newOrder order = (b.enter order).park) ∨
    (order.ordType.isStop = false ∧ b.phase ≠ .cts ∧ ¬b.Executes order ∧
      b.newOrder order = (b.enter order).accumulate) ∨
    (¬b.Executes order ∧ b.newOrder order = (b.enter order).reject) ∨
    (b.Executes order ∧ b.newOrder order = (b.enter order).execute.settle) := by
  rw [newOrder]
  split
  · rename_i hstop
    have hstop : order.ordType.isStop = true := by
      rcases hstop with hstop | hstop <;> simp [hstop, OrderType.isStop]
    exact Or.inl ⟨hstop, fun h => by simpa [hstop] using h.1, rfl⟩
  · rename_i hstop
    have hstop : order.ordType.isStop = false := by
      cases ht : order.ordType <;> simp_all [OrderType.isStop]
    split
    · rename_i hphase
      have hphase : b.phase ≠ .cts := by rcases hphase with h | h <;> simp [h]
      exact Or.inr (Or.inl ⟨hstop, hphase, fun h => hphase h.2.1, rfl⟩)
    · split
      · rename_i hclosed
        exact Or.inr (Or.inr (Or.inl ⟨fun h => by simp [h.2.1] at hclosed, rfl⟩))
      · split
        · rename_i hfok
          exact Or.inr (Or.inr (Or.inl ⟨fun h => absurd (h.2.2 hfok.1) (by omega), rfl⟩))
        · rename_i hphase hclosed hfok
          refine Or.inr (Or.inr (Or.inr ⟨⟨hstop, ?_, ?_⟩, rfl⟩))
          · cases hp : b.phase <;> simp_all
          · intro ht
            by_contra hlt
            exact hfok ⟨ht, by omega⟩

/-- The resting orders that a new order is filled from. -/
def filledBy (b : Book) (order : Order) : List Order :=
  if b.Executes order then
    (b.entered order).fills order.side.opposite (b.resting order.side.opposite)
  else []

lemma filledBy_subset {o : Order} (ho : o ∈ b.filledBy order) :
    o ∈ b.resting order.side.opposite := by
  rw [filledBy] at ho
  split at ho
  · exact (List.takeWhile_sublist _).subset ((filledFrom_sublist _ _).subset ho)
  · cases ho

@[simp] lemma enter_incoming : (b.enter order).incoming = b.entered order := rfl

/-- Matching a new order. -/
lemma enter_sweeps (hOK : ∀ s, (b.levels s).OK) (order : Order) :
    (b.enter order).Sweeps order.side.opposite (b.enter order).execute :=
  execute_sweeps (m := b.enter order) fun s => by cases s <;> exact hOK _

end Book

namespace Matching

variable (m : Matching)

/-- The last report on the order, with no trade in it. -/
def Closing (id : ℕ) (evs : List BookEvent) : Prop :=
  ∀ ev ∈ evs, (∃ o, ev = .exit o ∧ o.orderId = id) ∨
    ∃ r, ev = .exec r ∧ r.orderId = id ∧ r.tradeId = 0

/-- What is left of the order either goes or comes to rest. -/
lemma settle_book : (m.settle.book = m.book ∧ (m.incoming.remainingQty = 0 ∨
      m.incoming.ordType = .market ∨ m.incoming.tif = .ioc)) ∨
    (0 < m.incoming.remainingQty ∧ m.incoming.ordType ≠ .market ∧ m.incoming.tif ≠ .ioc ∧
      ∃ status, m.settle.book = m.book.insertResting { m.incoming with status := status }) := by
  rw [settle]
  simp only
  split
  · rename_i hpos
    split
    · rename_i hgo
      exact Or.inl ⟨rfl, Or.inr hgo⟩
    · rename_i hstay
      push Not at hstay
      exact Or.inr ⟨hpos, hstay.1, hstay.2, _, rfl⟩
  · exact Or.inl ⟨rfl, Or.inl (by omega)⟩

lemma settle_log : ∃ evs, m.settle.log = m.log ++ evs ∧ Closing m.incoming.orderId evs := by
  rw [settle]
  simp only
  split
  · split
    · exact ⟨_, rfl, by simp [Closing, Order.report]⟩
    · exact ⟨_, rfl, by simp [Closing, Order.report]⟩
  · exact ⟨_, rfl, by simp [Closing, Order.report]⟩

/-- Whatever becomes of the order, its sender is told. -/
lemma settle_told : ∃ r, .exec r ∈ m.settle.log ∧ r.orderId = m.incoming.orderId := by
  rw [settle]
  simp only
  split
  · split
    · exact ⟨m.incoming.report .cancelled (m.incoming.quantity - m.incoming.remainingQty) 0,
        by simp, rfl⟩
    · exact ⟨_, List.mem_append_right _ (List.mem_singleton_self _), rfl⟩
  · exact ⟨m.incoming.report .filled m.incoming.quantity 0, by simp, rfl⟩

end Matching

namespace Book

variable {b : Book} {order : Order}

/-- The log of `newOrder`. -/
theorem newOrder_log (hOK : ∀ s, (b.levels s).OK) (order : Order) : ∃ fills last,
    (b.newOrder order).log = .entry (b.entered order) :: (fills ++ last) ∧
      FillLog b.nextOrderId b.symbolIdx b.nextTradeId (b.filledBy order) fills ∧
      Matching.Closing b.nextOrderId last := by
  rcases b.newOrder_cases order with ⟨-, hex, h⟩ | ⟨-, -, hex, h⟩ | ⟨hex, h⟩ | ⟨hex, h⟩
  · rw [h, filledBy, if_neg hex]
    exact ⟨[], _, rfl, .nil, by simp [Matching.Closing, Order.report, entered]⟩
  · rw [h, filledBy, if_neg hex]
    exact ⟨[], _, rfl, .nil, by simp [Matching.Closing, Order.report, entered]⟩
  · rw [h, filledBy, if_neg hex]
    exact ⟨[], _, rfl, .nil, by simp [Matching.Closing, Order.report, entered]⟩
  · rw [h, filledBy, if_pos hex]
    have hsw := enter_sweeps hOK order
    obtain ⟨fills, hlog, hfills⟩ := hsw.log
    obtain ⟨last, hsettle, hlast⟩ := (b.enter order).execute.settle_log
    rw [hsw.incoming.orderId] at hlast
    refine ⟨fills, last, by rw [hsettle, hlog]; simp [enter], ?_, hlast⟩
    exact hfills

/-- The only order that `newOrder` enters is its own. -/
lemma entry_newOrder (hOK : ∀ s, (b.levels s).OK) {order e : Order}
    (he : .entry e ∈ (b.newOrder order).log) : e = b.entered order := by
  obtain ⟨fills, last, hlog, hfills, hlast⟩ := newOrder_log hOK order
  rw [hlog] at he
  simp only [List.mem_cons, BookEvent.entry.injEq, List.mem_append] at he
  rcases he with he | he | he
  · exact he
  · have hmem := mem_entryIds.mpr ⟨e, he, rfl⟩
    simp [hfills.entryIds] at hmem
  · rcases hlast _ he with ⟨o, ho, -⟩ | ⟨r, hr, -⟩
    · cases ho
    · cases hr

lemma entry_mem_newOrder (hOK : ∀ s, (b.levels s).OK) {order e : Order} :
    .entry e ∈ (b.newOrder order).log ↔ e = b.entered order := by
  constructor
  · exact entry_newOrder hOK
  · rintro rfl
    obtain ⟨fills, last, hlog, -⟩ := newOrder_log hOK order
    rw [hlog]
    exact List.mem_cons_self

/-- The trades of `newOrder` are in the symbol of the book. -/
lemma symbolIdx_newOrder (hOK : ∀ s, (b.levels s).OK) {t : Trade}
    (ht : .trade t ∈ (b.newOrder order).log) : t.symbolIdx = b.symbolIdx := by
  obtain ⟨fills, last, hlog, hfills, hlast⟩ := newOrder_log hOK order
  rw [hlog] at ht
  simp only [List.mem_cons, reduceCtorEq, List.mem_append, false_or] at ht
  rcases ht with ht | ht
  · exact (hfills.party ht).2.1
  · rcases hlast _ ht with ⟨o, ho, -⟩ | ⟨r, hr, -⟩
    · cases ho
    · cases hr

/-- `newOrder` makes a report on its order. -/
lemma newOrder_told (b : Book) (order : Order) :
    ∃ r, .exec r ∈ (b.newOrder order).log ∧ r.orderId = b.nextOrderId := by
  rcases b.newOrder_cases order with ⟨-, -, h⟩ | ⟨-, -, -, h⟩ | ⟨-, h⟩ | ⟨-, h⟩
  · rw [h]
    exact ⟨(b.entered order).report .new 0 order.quantity,
      by simp [Matching.park, enter, entered], rfl⟩
  · rw [h]
    exact ⟨(b.entered order).report .new 0 order.quantity,
      by simp [Matching.accumulate, enter, entered], rfl⟩
  · rw [h]
    exact ⟨(b.entered order).report .rejected 0 order.quantity,
      by simp [Matching.reject, enter, entered], rfl⟩
  · obtain ⟨r, hr, hid⟩ := (b.enter order).execute.settle_told
    rw [(b.enter order).execute_shrunk.orderId] at hid
    rw [h]
    exact ⟨r, hr, hid⟩

/-- An order is filled from nothing exactly if it is empty or nothing is within its reach. -/
theorem fills_eq_nil_iff {s : Side} {o : Order} (hOK : (b.levels s).OK) :
    o.fills s (b.resting s) = [] ↔
      o.remainingQty = 0 ∨ ∀ o' ∈ b.resting s, ¬o.Reaches s o'.price := by
  have hsorted : (b.resting s).Pairwise _ := hOK.elems_sorted
  rw [Order.fills]
  generalize b.resting s = orders at hsorted ⊢
  cases orders with
  | nil => simp [filledFrom]
  | cons o₁ orders =>
    by_cases hreach : o.Reaches s o₁.price
    · rw [List.takeWhile_cons_of_pos (by simpa using hreach), filledFrom]
      simp [hreach]
    · have hall : ∀ o' ∈ o₁ :: orders, ¬o.Reaches s o'.price := by
        intro o' ho' hr
        rcases List.mem_cons.mp ho' with rfl | ho'
        · exact hreach hr
        · rcases List.rel_of_pairwise_cons hsorted ho' with heq | hbefore
          · exact hreach (heq ▸ hr)
          · exact hreach (hr.mono hbefore)
      rw [List.takeWhile_cons_of_neg (by simpa using hreach)]
      simpa [filledFrom] using Or.inr hall

/-- `newOrder` makes one trade for each order it is filled from. -/
theorem trades_newOrder_length (hOK : ∀ s, (b.levels s).OK) :
    (trades (b.newOrder order).log).length = (b.filledBy order).length := by
  obtain ⟨fills, last, hlog, hfills, hlast⟩ := newOrder_log hOK order
  have hnone : trades last = [] := by
    apply List.filterMap_eq_nil_iff.mpr
    intro ev hev
    rcases hlast ev hev with ⟨o, rfl, -⟩ | ⟨r, rfl, -⟩ <;> rfl
  rw [hlog, ← List.singleton_append, trades_append, trades_append, hnone, trades_entry,
    List.nil_append, List.append_nil, hfills.trades_length]

/-- The order trades when it is entered: it gets as far as the matching, is not empty, and some
resting order of the other side is within its reach. -/
def Marketable (b : Book) (order : Order) : Prop :=
  b.Executes order ∧ order.quantity ≠ 0 ∧
    ∃ o ∈ b.resting order.side.opposite, order.Reaches order.side.opposite o.price

instance (b : Book) (order : Order) : Decidable (b.Marketable order) :=
  inferInstanceAs (Decidable (_ ∧ _ ∧ ∃ o ∈ b.resting order.side.opposite, _))

theorem filledBy_eq_nil_iff (hOK : ∀ s, (b.levels s).OK) :
    b.filledBy order = [] ↔ ¬b.Marketable order := by
  rw [filledBy, Marketable]
  split
  · rename_i hex
    rw [fills_eq_nil_iff (hOK _)]
    simp only [hex, true_and, entered, Order.Reaches, not_and, not_exists, ne_eq]
    tauto
  · rename_i hex
    simp [hex]

/-- What `newOrder` does to the rest of the book. -/
theorem newOrder_frame (hOK : ∀ s, (b.levels s).OK) :
    (b.newOrder order).book.nextOrderId = b.nextOrderId + 1 ∧
      (b.newOrder order).book.phase = b.phase ∧
      (b.newOrder order).book.symbolIdx = b.symbolIdx := by
  rcases b.newOrder_cases order with ⟨-, -, h⟩ | ⟨-, -, -, h⟩ | ⟨-, h⟩ | ⟨-, h⟩
  · rw [h]
    exact ⟨rfl, rfl, rfl⟩
  · rw [h]
    simp [Matching.accumulate, enter]
  · rw [h]
    exact ⟨rfl, rfl, rfl⟩
  · have hsw := enter_sweeps hOK order
    rw [h]
    rcases (b.enter order).execute.settle_book with ⟨hbook, -⟩ | ⟨-, -, -, status, hbook⟩
    · rw [hbook]
      exact ⟨hsw.nextOrderId, hsw.phase, hsw.symbolIdx⟩
    · rw [hbook, insertResting_nextOrderId, insertResting_phase, insertResting_symbolIdx]
      exact ⟨hsw.nextOrderId, hsw.phase, hsw.symbolIdx⟩

end Book

end EuNEx
