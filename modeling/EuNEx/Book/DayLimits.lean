import EuNEx.Book.History
import EuNEx.Book.Resting

/-!
# Day limit orders

A book in continuous trading that is sent nothing but limit orders for the day. Such an order
leaves the book only by being filled, so what it has not traded is open, and the orders that ever
entered are those that were sent, numbered from 1.
-/

namespace EuNEx

/-- The order under its number, counted from 0. -/
def Order.numbered (order : Order) (k : ℕ) : Order :=
  { order with orderId := k + 1, remainingQty := order.quantity, status := .new }

/-- A limit order for the day. -/
def Order.IsDayLimit (order : Order) : Prop := order.ordType = .limit ∧ order.tif = .day

instance (order : Order) : Decidable order.IsDayLimit := inferInstanceAs (Decidable (_ ∧ _))

lemma FillLog.not_exit {id symbolIdx nextTradeId : ℕ} {orders : List Order} {evs : List BookEvent}
    (h : FillLog id symbolIdx nextTradeId orders evs) (o : Order) : .exit o ∉ evs := by
  induction h with
  | nil => exact List.not_mem_nil
  | snoc o' t r h hparty hsym ht hr hid ih => simpa using ih

namespace Book

variable {b : Book} {hist : List BookEvent} {order : Order} {orders : List Order}

/-- Matching takes no order off the book but by filling it, and a day limit order comes to rest
with what is left. -/
lemma not_exit_newOrder (hOK : ∀ s, (b.levels s).OK) (hphase : b.phase = .cts)
    (hday : order.IsDayLimit) (o : Order) : .exit o ∉ (b.newOrder order).log := by
  have hstop : order.ordType.isStop = false := by simp [hday.1, OrderType.isStop]
  have hex : b.Executes order := ⟨hstop, hphase, fun hfok => by simp [hday.2] at hfok⟩
  rcases b.newOrder_cases order with ⟨-, hne, -⟩ | ⟨-, -, hne, -⟩ | ⟨hne, -⟩ | ⟨-, h⟩
  · exact absurd hex hne
  · exact absurd hex hne
  · exact absurd hex hne
  · have hsw := enter_sweeps hOK order
    obtain ⟨fills, hlog, hfills⟩ := hsw.log
    have hexecute : .exit o ∉ (b.enter order).execute.log := by
      rw [hlog]
      simpa [enter] using hfills.not_exit o
    have hinc : (b.entered order).Shrunk (b.enter order).execute.incoming := hsw.incoming
    have hstays : ¬((b.enter order).execute.incoming.ordType = .market ∨
        (b.enter order).execute.incoming.tif = .ioc) := by
      rw [hinc.eq]
      simp [entered, hday.1, hday.2]
    rw [h, Matching.settle]
    simp only [if_neg hstays]
    split <;> simpa using hexecute

/-- The book has been sent these orders, and nothing else. -/
structure Quoted (b : Book) (hist : List BookEvent) (orders : List Order) : Prop where
  sound : b.Sound hist
  continuous : b.Continuous 0
  stopOrders : b.stopOrders = []
  nextOrderId : b.nextOrderId = orders.length + 1
  entry : ∀ e, .entry e ∈ hist → ∃ (k : ℕ) (order : Order), orders[k]? = some order ∧
    e = order.numbered k
  exit : ∀ o, .exit o ∉ hist

namespace Quoted

lemma new (symbolIdx : ℕ) : (Book.new symbolIdx).Quoted [] [] where
  sound := .new symbolIdx
  continuous := ⟨rfl, by simp [Uncrossed, Book.new, OrdMap.keys], fun s o ho => by
    cases s <;> cases ho⟩
  stopOrders := rfl
  nextOrderId := rfl
  entry := by simp
  exit := by simp

lemma entered (h : b.Quoted hist orders) (order : Order) :
    b.entered order = order.numbered orders.length := by
  rw [Book.entered, h.nextOrderId, Order.numbered]

theorem newOrder (h : b.Quoted hist orders) (hday : order.IsDayLimit) :
    (b.newOrder order).book.Quoted (hist ++ (b.newOrder order).log) (orders ++ [order]) := by
  have hOK := h.sound.shape.levels
  have hstop : order.ordType.isStop = false := by simp [hday.1, OrderType.isStop]
  refine ⟨h.sound.newOrder order, h.continuous.newOrder h.sound order, ?_, ?_, ?_, ?_⟩
  · rw [stopOrders_newOrder_of_executable hOK hstop, h.stopOrders]
  · rw [(newOrder_frame hOK).1, h.nextOrderId, List.length_append, List.length_singleton]
  · intro e he
    rcases List.mem_append.mp he with he | he
    · obtain ⟨k, o, hk, rfl⟩ := h.entry e he
      have hlt := (List.getElem?_eq_some_iff.mp hk).1
      exact ⟨k, o, by rwa [List.getElem?_append_left hlt], rfl⟩
    · refine ⟨orders.length, order, List.getElem?_concat_length, ?_⟩
      rw [entry_newOrder hOK he, h.entered]
  · intro o ho
    rcases List.mem_append.mp ho with ho | ho
    · exact h.exit o ho
    · exact not_exit_newOrder hOK h.continuous.phase hday o ho

/-- Every order that was sent has entered under its number. -/
lemma entry_of_getElem? (h : b.Quoted hist orders) {k : ℕ} (hk : orders[k]? = some order) :
    .entry (order.numbered k) ∈ hist := by
  have hlt := (List.getElem?_eq_some_iff.mp hk).1
  have hids : (b.ledger hist).Ids := h.sound.laws.ids
  have hnext : (b.ledger hist).nextOrderId = orders.length + 1 := h.nextOrderId
  have hmem : k + 1 ∈ entryIds hist := hids.mem_entryIds_iff.mpr ⟨by omega, by omega⟩
  obtain ⟨e, he, hid⟩ := mem_entryIds.mp hmem
  obtain ⟨k', order', hk', rfl⟩ := h.entry e he
  obtain rfl : k' = k := Nat.succ.inj hid
  obtain rfl := Option.some.inj (hk.symm.trans hk')
  exact he

/-- What an order has not traded is open. -/
theorem quantity_eq (h : b.Quoted hist orders) {k : ℕ} (hk : orders[k]? = some order) :
    order.quantity = traded hist (k + 1) + b.openQty (k + 1) := by
  have hids : (b.ledger hist).Ids := h.sound.laws.ids
  have hbalance := Ledger.Account.balance hids h.sound.laws.account (h.entry_of_getElem? hk)
  have hexited : exited hist (k + 1) = 0 := exited_eq_zero fun o ho => absurd ho (h.exit o)
  rw [← h.sound.held_live]
  have hquantity : order.quantity = traded hist (k + 1) + Ledger.held b.live (k + 1)
      + exited hist (k + 1) := hbalance
  omega

/-- The parties of a trade, as they were sent. -/
lemma parties (h : b.Quoted hist orders) {t : Trade} (ht : .trade t ∈ hist) :
    ∃ (i : ℕ) (buyer : Order) (j : ℕ) (seller : Order), orders[i]? = some buyer ∧
      orders[j]? = some seller ∧ i ≠ j ∧ t.Between (buyer.numbered i) (seller.numbered j) := by
  obtain ⟨pre, post, hsplit⟩ := List.append_of_mem ht
  obtain ⟨-, buyer, seller, hbuyer, hseller, hne, hterms⟩ :=
    h.sound.laws.provenance.always pre (.trade t) post hsplit
  have hmem : ∀ e, .entry e ∈ pre → .entry e ∈ hist := fun e he => by simp [hsplit, he]
  obtain ⟨i, o, hi, rfl⟩ := h.entry buyer (hmem _ hbuyer)
  obtain ⟨j, o', hj, rfl⟩ := h.entry seller (hmem _ hseller)
  exact ⟨i, o, j, o', hi, hj, fun hij => hne (by simp [Order.numbered, hij]), hterms⟩

/-- A resting order is one that was sent, with less open. -/
lemma resting (h : b.Quoted hist orders) {s : Side} {o : Order} (ho : o ∈ b.resting s) :
    ∃ (k : ℕ) (order : Order), orders[k]? = some order ∧ Ledger.Tracks (order.numbered k) o := by
  have hids : (b.ledger hist).Ids := h.sound.laws.ids
  obtain ⟨e, he, ht⟩ := hids.entered o (mem_live.mpr (Or.inl ⟨s, ho⟩))
  obtain ⟨k, order, hk, rfl⟩ := h.entry e he
  exact ⟨k, order, hk, ht⟩

end Quoted

end Book

end EuNEx
