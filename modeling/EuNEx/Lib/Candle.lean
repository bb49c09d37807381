import Mathlib.Order.MinMax
import Mathlib.Algebra.BigOperators.Group.List.Basic

/-!
# Candles

A candle sums up the trades of a span of time: the first price and the last, the highest and the
lowest, and the volume. It is kept up to date trade by trade.
-/

/-- A candle. Its prices lie between the lowest and the highest. -/
structure Candle (α M : Type*) [LE α] where
  opening : α
  high : α
  low : α
  closing : α
  volume : M
  opening_mem : low ≤ opening ∧ opening ≤ high
  closing_mem : low ≤ closing ∧ closing ≤ high

namespace Candle

variable {α M : Type*} [LinearOrder α]

/-- The candle of a single trade. -/
def single (price : α) (quantity : M) : Candle α M :=
  ⟨price, price, price, price, quantity, ⟨le_rfl, le_rfl⟩, le_rfl, le_rfl⟩

/-- One trade more. -/
def trade [Add M] (c : Candle α M) (price : α) (quantity : M) : Candle α M where
  opening := c.opening
  high := max c.high price
  low := min c.low price
  closing := price
  volume := c.volume + quantity
  opening_mem := ⟨(min_le_left _ _).trans c.opening_mem.1, c.opening_mem.2.trans (le_max_left _ _)⟩
  closing_mem := ⟨min_le_right _ _, le_max_right _ _⟩

/-- The candle sums up these trades, given by price and quantity. -/
structure Shows [AddMonoid M] (c : Candle α M) (trades : List (α × M)) : Prop where
  opening : (trades.map Prod.fst).head? = some c.opening
  closing : (trades.map Prod.fst).getLast? = some c.closing
  high : c.high ∈ trades.map Prod.fst ∧ ∀ p ∈ trades.map Prod.fst, p ≤ c.high
  low : c.low ∈ trades.map Prod.fst ∧ ∀ p ∈ trades.map Prod.fst, c.low ≤ p
  volume : c.volume = (trades.map Prod.snd).sum

variable [AddMonoid M] {c : Candle α M} {trades : List (α × M)} {price : α} {quantity : M}

lemma shows_single : (single price quantity).Shows [(price, quantity)] := by
  refine ⟨rfl, rfl, ⟨by simp [single], ?_⟩, ⟨by simp [single], ?_⟩, by simp [single]⟩
  · intro p hp
    exact (List.mem_singleton.mp hp).le
  · intro p hp
    exact (List.mem_singleton.mp hp).ge

lemma Shows.ne_nil (h : c.Shows trades) : trades ≠ [] := by
  rintro rfl
  have := h.opening
  simp at this

lemma Shows.trade (h : c.Shows trades) :
    (c.trade price quantity).Shows (trades ++ [(price, quantity)]) := by
  have hmem (p : α) : p ∈ (trades ++ [(price, quantity)]).map Prod.fst ↔
      p ∈ trades.map Prod.fst ∨ p = price := by
    rw [List.map_append, List.mem_append]
    simp
  constructor
  case opening =>
    rw [List.map_append, List.head?_append, h.opening]
    rfl
  case closing => simp [Candle.trade]
  case high =>
    refine ⟨?_, fun p hp => ?_⟩
    · rw [hmem]
      rcases max_choice c.high price with hc | hc
      · exact Or.inl ((congrArg (· ∈ trades.map Prod.fst) hc).mpr h.high.1)
      · exact Or.inr hc
    · rcases (hmem p).mp hp with hp | rfl
      · exact (h.high.2 p hp).trans (le_max_left _ _)
      · exact le_max_right _ _
  case low =>
    refine ⟨?_, fun p hp => ?_⟩
    · rw [hmem]
      rcases min_choice c.low price with hc | hc
      · exact Or.inl ((congrArg (· ∈ trades.map Prod.fst) hc).mpr h.low.1)
      · exact Or.inr hc
    · rcases (hmem p).mp hp with hp | rfl
      · exact (min_le_left _ _).trans (h.low.2 p hp)
      · exact min_le_right _ _
  case volume => simp [Candle.trade, h.volume]

end Candle
