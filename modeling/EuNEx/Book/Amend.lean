import EuNEx.Book.Cancel
import EuNEx.Book.Crossing

/-!
# Whose order is amended

`modifyOrder` builds the replacement of an order from the report on its cancel. The report says
neither which side the order was on nor who entered it, so the replacement is like the order only
where what it puts there instead happens to be right.
-/

namespace EuNEx.Book

variable {b : Book} {hist : List BookEvent} {id : ℕ} {newPrice : ℤ} {newQty : ℕ} {c : Cancel}
  {o : Order}

/-- The order has another price and another quantity, and is the same otherwise. -/
structure AmendedTo (newPrice : ℤ) (newQty : ℕ) (o o' : Order) : Prop where
  side : o'.side = o.side
  sessionId : o'.sessionId = o.sessionId
  clOrdId : o'.clOrdId = o.clOrdId
  symbolIdx : o'.symbolIdx = o.symbolIdx
  price : o'.price = newPrice
  quantity : o'.quantity = newQty

/-- One order takes the place of another, and the other orders stay as they are. -/
structure Replaces (b b' : Book) (o o' : Order) : Prop where
  live : o' ∈ b'.live
  parked : o ∈ b.stopOrders ↔ o' ∈ b'.stopOrders
  resting : ∀ s, (b'.resting s).filter (fun x => x.orderId ≠ o'.orderId)
    = (b.resting s).filter fun x => x.orderId ≠ o.orderId
  stopOrders : b'.stopOrders.filter (fun x => x.orderId ≠ o'.orderId)
    = b.stopOrders.filter fun x => x.orderId ≠ o.orderId

/-- A successful amendment keeps the identity of the order, and one that fails changes nothing. -/
def Amends (b : Book) (id : ℕ) (newPrice : ℤ) (newQty : ℕ) : Prop :=
  match b.modifyOrder id newPrice newQty with
  | none => b.step (.modifyOrder id newPrice newQty) = (b, [])
  | some (out, _) => ∃ o ∈ b.live, o.orderId = id ∧
      ∃ o', AmendedTo newPrice newQty o o' ∧ b.Replaces out.book o o'

/-- The order is like its replacement: it rests on the side that the replacement gets, and carries
the session 0 and the symbol of the book. -/
structure Replaceable (b : Book) (o : Order) : Prop where
  resting : o ∉ b.stopOrders
  side : o.side = b.amendSide o.orderId
  sessionId : o.sessionId = 0
  symbolIdx : o.symbolIdx = b.symbolIdx

/-- The ids of a book are older than the one that the replacement gets. -/
lemma Sound.filter_next (hb : b.Sound hist) {orders : List Order} (h : ∀ o ∈ orders, o ∈ b.live) :
    orders.filter (fun o => o.orderId ≠ b.nextOrderId) = orders :=
  List.filter_eq_self.mpr fun o ho => decide_eq_true (hb.laws.ids.live_lt (h o ho)).ne

/-- The replacement takes the place of an order that was not parked. -/
lemma replaces_replacement (hb : b.Sound hist) (hc : b.cancelOrder id = some c)
    (hresting : c.removed ∉ b.stopOrders) : b.Replaces (c.replaced newPrice newQty).book c.removed
      (c.book.replacement c.report newPrice newQty) := by
  have hcancelled := hb.cancelled hc
  have hrem := removes_of_cancelOrder hb.shape hc
  have hleft : c.book.Sound (hist ++ c.outcome.log) := hb.cancel hrem
  have hOK := (hrem.shape hb.shape).levels
  set new := c.book.replacement c.report newPrice newQty with hnew
  set left := { c.book with nextOrderId := c.book.nextOrderId + 1 } with hbook
  have hid : new.orderId = c.book.nextOrderId := rfl
  have hsame : ∀ s, left.resting s = c.book.resting s := fun s => by cases s <;> rfl
  have hlive : ∀ s, ∀ o ∈ c.book.resting s, o ∈ c.book.live := fun s o ho =>
    mem_live.mpr (Or.inl ⟨s, ho⟩)
  refine ⟨?_, ?_, ?_, ?_⟩
  · show new ∈ (left.insertResting new).live
    rw [live_insertResting]
    exact Multiset.mem_cons_self _ _
  · refine iff_of_false hresting fun hparked => ?_
    have hstop : new ∈ c.book.stopOrders := by
      rwa [Cancel.replaced, insertResting_stopOrders] at hparked
    exact absurd (hleft.laws.ids.live_lt (mem_live.mpr (Or.inr hstop))) (lt_irrefl _)
  · rw [hrem.orderId, hid]
    show ∀ s, ((left.insertResting new).resting s).filter _ = _
    refine (forall_sides (s := new.side)).mpr ⟨?_, ?_⟩
    · rw [resting_insertResting (by cases new.side <;> exact hOK _),
        Sorted.filter_insertBehind (by simp [hid]), hsame, hleft.filter_next (hlive _),
        hcancelled.resting]
    · rw [resting_insertResting_opposite, hsame, hleft.filter_next (hlive _), hcancelled.resting]
  · rw [hrem.orderId, hid]
    show (left.insertResting new).stopOrders.filter _ = _
    rw [insertResting_stopOrders]
    show c.book.stopOrders.filter _ = _
    rw [hleft.filter_next fun o ho => mem_live.mpr (Or.inr ho), hcancelled.stopOrders]

/-- Whatever takes the place of the order is the replacement, and rests. -/
lemma Replaces.eq_replacement (hb : b.Sound hist) (hc : b.cancelOrder id = some c) {o o' : Order}
    (h : b.Replaces (c.replaced newPrice newQty).book o o') :
    o' = c.book.replacement c.report newPrice newQty ∧ o ∉ b.stopOrders := by
  have hrem := removes_of_cancelOrder hb.shape hc
  have hleft : c.book.Sound (hist ++ c.outcome.log) := hb.cancel hrem
  set new := c.book.replacement c.report newPrice newQty with hnew
  set left := { c.book with nextOrderId := c.book.nextOrderId + 1 } with hbook
  have hid : new.orderId = b.nextOrderId := hrem.nextOrderId
  have hrests : new ∈ (c.replaced newPrice newQty).book.resting new.side :=
    mem_resting_insertResting.mpr (Or.inr ⟨rfl, rfl⟩)
  have hlive : o' = new ∨ o' ∈ c.book.live := by
    have hmem : o' ∈ (left.insertResting new).live := h.live
    rw [live_insertResting] at hmem
    exact Multiset.mem_cons.mp hmem
  have heq : o' = new := by
    by_contra hne
    have hold := hlive.resolve_left hne
    have hlt : o'.orderId < new.orderId := hleft.laws.ids.live_lt hold
    have hmem : new ∈ ((c.replaced newPrice newQty).book.resting new.side).filter
        fun x => x.orderId ≠ o'.orderId := List.mem_filter.mpr ⟨hrests, decide_eq_true hlt.ne'⟩
    rw [h.resting] at hmem
    have hnewlt : new.orderId < b.nextOrderId :=
      hb.laws.ids.live_lt (mem_live.mpr (Or.inl ⟨_, (List.mem_filter.mp hmem).1⟩))
    exact absurd hid hnewlt.ne
  refine ⟨heq, fun hparked => ?_⟩
  have hstop := h.parked.mp hparked
  rw [heq, Cancel.replaced, insertResting_stopOrders] at hstop
  have hlt : new.orderId < c.book.nextOrderId :=
    hleft.laws.ids.live_lt (mem_live.mpr (Or.inr hstop))
  exact absurd hlt (lt_irrefl _)

lemma amends_some (hb : b.Sound hist) (hc : b.cancelOrder id = some c) :
    b.Amends id newPrice newQty ↔ b.Replaceable c.removed := by
  have hrem := removes_of_cancelOrder hb.shape hc
  have hside := replacement_side hb hrem newPrice newQty
  have hclOrdId : c.report.clOrdId = c.removed.clOrdId := by cases hrem <;> rfl
  have hamends : b.Amends id newPrice newQty ↔ ∃ o ∈ b.live, o.orderId = id ∧
      ∃ o', AmendedTo newPrice newQty o o' ∧
        b.Replaces (c.replaced newPrice newQty).book o o' := by
    simp only [Amends, modifyOrder, hc, Option.map_some]
    rfl
  rw [hamends]
  constructor
  · rintro ⟨o, ho, hid, o', hlike, hreplaces⟩
    obtain rfl := hrem.eq_removed hb ho hid
    obtain ⟨rfl, hresting⟩ := hreplaces.eq_replacement hb hc
    refine ⟨hresting, ?_, hlike.sessionId.symm, ?_⟩
    · rw [← hlike.side, hside, hid]
    · rw [← hlike.symbolIdx]
      exact hrem.symbolIdx
  · intro h
    refine ⟨c.removed, hrem.mem_live, hrem.orderId, _, ⟨?_, h.sessionId.symm, hclOrdId, ?_, rfl,
      rfl⟩, replaces_replacement hb hc h.resting⟩
    · rw [hside, h.side, hrem.orderId]
    · rw [h.symbolIdx]
      exact hrem.symbolIdx

/-- An amendment keeps the identity of an order exactly if the order is like its replacement. -/
theorem modifyOrder_amends_iff (symbolIdx : ℕ) (ops : List BookOp) (id : ℕ) (newPrice : ℤ)
    (newQty : ℕ) : (run symbolIdx ops).1.Amends id newPrice newQty ↔
      ∀ o ∈ (run symbolIdx ops).1.live, o.orderId = id →
        (run symbolIdx ops).1.Replaceable o := by
  have hb := sound_run symbolIdx ops
  generalize (run symbolIdx ops).1 = b at hb ⊢
  cases hc : b.cancelOrder id with
  | none =>
    have hnone := (cancelOrder_eq_none_iff hb.shape).mp hc
    refine iff_of_true ?_ fun o ho hid => absurd hid (hnone o ho)
    simp only [Amends, modifyOrder, hc, Option.map_none]
    rw [step, outcome_modifyOrder_none hc]
  | some c =>
    have hrem := removes_of_cancelOrder hb.shape hc
    rw [amends_some hb hc]
    constructor
    · intro h o ho hid
      rwa [hrem.eq_removed hb ho hid]
    · exact fun h => h c.removed hrem.mem_live hrem.orderId

/-- The amended bid of session 1 becomes an offer of session 0. -/
theorem modifyOrder_amends_iff_bid :
    let b := (run 1 [.newOrder (dayLimit .buy 10 5 1)]).1
    (b.step (.modifyOrder 1 11 5)).1.resting .buy = [] ∧
      ((b.step (.modifyOrder 1 11 5)).1.resting .sell).map (fun o => (o.price, o.sessionId))
        = [(11, 0)] ∧ ¬b.Amends 1 11 5 := by
  refine ⟨by decide, by decide, fun h => ?_⟩
  have hsession : ((run 1 [.newOrder (dayLimit .buy 10 5 1)]).1.cancelOrder 1).map
      (fun c => c.removed.sessionId) = some 1 := by decide
  obtain ⟨c, hc, hone⟩ := Option.map_eq_some_iff.mp hsession
  have hzero := ((amends_some (sound_run 1 _) hc).mp h).sessionId
  rw [hone] at hzero
  cases hzero

end EuNEx.Book
