import EuNEx.Book.Flat

/-!
# Cancels

`cancelOrder` finds exactly the live orders, whatever the book has been through, and takes off the
one it finds.
-/

namespace EuNEx.Book

variable {b : Book} {hist : List BookEvent} {id : ℕ} {c : Cancel}

/-- What a successful cancel does: one order leaves, the others and all else stay as they are. -/
structure Cancelled (b : Book) (id : ℕ) (c : Cancel) : Prop where
  removed : c.removed.orderId = id ∧ b.live = c.removed ::ₘ c.book.live
  resting : ∀ s, c.book.resting s = (b.resting s).filter fun o => o.orderId ≠ id
  stopOrders : c.book.stopOrders = b.stopOrders.filter fun o => o.orderId ≠ id
  symbolIdx : c.book.symbolIdx = b.symbolIdx
  phase : c.book.phase = b.phase
  lastTradePrice : c.book.lastTradePrice = b.lastTradePrice
  nextOrderId : c.book.nextOrderId = b.nextOrderId
  nextTradeId : c.book.nextTradeId = b.nextTradeId
  again : c.book.cancelOrder id = none

lemma Sound.cancelled (h : b.Sound hist) (hc : b.cancelOrder id = some c) : b.Cancelled id c := by
  have hrem := removes_of_cancelOrder h.shape hc
  have hids := h.laws.ids.nodup
  refine ⟨⟨hrem.orderId, hrem.live⟩, hrem.resting_eq h.shape hids, hrem.stopOrders_eq h.shape hids,
    hrem.symbolIdx, hrem.phase, hrem.lastTradePrice, hrem.nextOrderId, hrem.nextTradeId, ?_⟩
  exact (cancelOrder_eq_none_iff (hrem.shape h.shape)).mpr (hrem.ne_of_mem hids)

lemma Shape.isSome_cancelOrder_iff (h : b.Shape) : (b.cancelOrder id).isSome = true ↔
    (∃ s, ∃ o ∈ b.resting s, o.orderId = id) ∨ ∃ o ∈ b.stopOrders, o.orderId = id := by
  have hnone : b.cancelOrder id = none ↔ ∀ o ∈ b.live, o.orderId ≠ id := cancelOrder_eq_none_iff h
  rw [← Option.not_isNone, Bool.not_eq_true', ← Bool.not_eq_true, Option.isNone_iff_eq_none, hnone]
  push Not
  constructor
  · rintro ⟨o, ho, hid⟩
    rcases mem_live.mp ho with ⟨s, ho⟩ | ho
    · exact Or.inl ⟨s, o, ho, hid⟩
    · exact Or.inr ⟨o, ho, hid⟩
  · rintro (⟨s, o, ho, hid⟩ | ⟨o, ho, hid⟩)
    · exact ⟨o, mem_live.mpr (Or.inl ⟨s, ho⟩), hid⟩
    · exact ⟨o, mem_live.mpr (Or.inr ho), hid⟩

/-- In every book that a run reaches, `cancelOrder` succeeds exactly on the ids that rest or are
parked. It then takes off that order and touches nothing else, and otherwise the call is without
effect. -/
theorem cancelOrder_exact (symbolIdx : ℕ) (ops : List BookOp) (id : ℕ) :
    let b := (run symbolIdx ops).1
    ((b.cancelOrder id).isSome = true ↔
      (∃ s, ∃ o ∈ b.resting s, o.orderId = id) ∨ ∃ o ∈ b.stopOrders, o.orderId = id) ∧
    (∀ c, b.cancelOrder id = some c →
      b.Cancelled id c ∧ b.step (.cancelOrder id) = (c.book, [.exit c.removed, .exec c.report])) ∧
    (b.cancelOrder id = none → b.step (.cancelOrder id) = (b, [])) := by
  intro b
  have h : b.Sound (run symbolIdx ops).2 := sound_run symbolIdx ops
  refine ⟨h.shape.isSome_cancelOrder_iff, fun c hc => ⟨h.cancelled hc, ?_⟩, fun hnone => ?_⟩
  · rw [step, outcome_cancelOrder_some hc]
    rfl
  · rw [step, outcome_cancelOrder_none hnone]

end EuNEx.Book
