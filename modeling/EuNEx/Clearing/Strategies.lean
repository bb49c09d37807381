import EuNEx.Clearing.Database
import EuNEx.Lib.Random
import Mathlib.Data.Rat.Floor

/-!
# The strategies of the members

`AITrader._strategy_momentum`, `_strategy_mean_revert`, `_strategy_random` and `_strategy_llm` of
`clearing_house/ch_ai_trader.py`, in exact numbers. A purchase is checked against the capital before
its limit is put above the price and rounded to cents, a purchase of one share not even against a
part of it, and without quotes not at all once it has been reduced.
-/

namespace EuNEx.Clearing

open Random (uniform uniform_mem choice mem_of_choice)

/-- What the strategies read of a snapshot, which has a symbol at least; what it lacks is 0. -/
structure Quote where
  bestBid : ℚ := 0
  bestAsk : ℚ := 0

/-- An order of a strategy, for which a language model may have a third side. -/
structure AIOrder where
  symbol : List Char
  side : Option Side
  price : ℚ
  quantity : ℤ
deriving DecidableEq

/-- Random numbers for the symbol, the side and the quantity. -/
structure Choices where
  symbol : ℕ
  side : ℕ
  quantity : ℕ

/-- What the strategies look at. Dictionaries are lists, in the order of their keys. -/
structure Setting where
  capital : ℚ
  holdings : Table (List Char) (Holding ℚ)
  bbos : List (List Char × Quote)
  priceHistory : List (List Char × List ℚ)
  choices : Choices

/-- What becomes of the request to a language model: an exception, up to the conversion of the
numbers; an answer without an order; or one with an order. -/
inductive LLMAnswer where
  | failed
  | nothing
  | order (symbol : List Char) (side : Option Side) (quantity : ℤ) (price : ℚ)

inductive AIStrategy where
  | momentum
  | meanRevert
  | random
  | llm (answer : LLMAnswer)

/-- The names and start prices of `SYMBOLS`. -/
def startPrices : List (List Char × ℚ) :=
  [("AAPL".toList, 154), ("MSFT".toList, 324), ("GOOGL".toList, 141), ("TSLA".toList, 375),
    ("NVDA".toList, 201), ("AMD".toList, 320), ("ENX".toList, 146)]

/-- `int(x)`. -/
def truncate (x : ℚ) : ℤ := if 0 ≤ x then ⌊x⌋ else ⌈x⌉

/-- `round(x, 2)`, half to even. -/
def roundCents (x : ℚ) : ℚ :=
  let cents := ⌊100 * x⌋
  let rest := 100 * x - cents
  if rest < 1 / 2 ∨ rest = 1 / 2 ∧ cents % 2 = 0 then (cents : ℚ) / 100
  else ((cents + 1 : ℤ) : ℚ) / 100

/-- `x or y`. -/
def orElse (x y : ℚ) : ℚ := if x ≠ 0 then x else y

/-- The first of `sorted(candidates, key=.., reverse=True)`, by the absolute value of the key. -/
def strongest {α : Type*} (key : α → ℚ) (candidates : List α) : Option α :=
  (candidates.mergeSort fun x y => |key y| ≤ |key x|).head?

/-- What the last five prices have gained. -/
def trend (prices : List ℚ) : ℚ :=
  let recent := prices.drop (prices.length - 5)
  recent.getLastD 0 - recent.headD 0

/-- The mean of the last twenty prices. -/
def average (prices : List ℚ) : ℚ :=
  let recent := prices.drop (prices.length - 20)
  recent.sum / recent.length

/-- How far the last price is from the mean. -/
def deviation (prices : List ℚ) : ℚ :=
  if 0 < average prices then (prices.getLastD 0 - average prices) / average prices else 0

namespace Setting

variable (s : Setting)

/-- The quantity that is held, 0 without a row. -/
def held (symbol : List Char) : ℤ := (s.holdings symbol).elim 0 Holding.quantity

/-! ### Orders -/

/-- A purchase for a part of the capital, of one share at least. -/
def buyOrder (symbol : List Char) (price fraction markup : ℚ) (draw : ℤ) : Option AIOrder :=
  if price ≤ 0 then none
  else
    let maxQty := truncate (s.capital * fraction / price)
    let qty := max 1 (min maxQty draw)
    if s.capital < qty * price then none
    else some ⟨symbol, some .buy, roundCents (price * markup), qty⟩

/-- A sale of what is held. -/
def sellOrder (symbol : List Char) (price discount : ℚ) (draw : ℤ) : Option AIOrder :=
  if s.held symbol ≤ 0 then none
  else if price ≤ 0 then none
  else some ⟨symbol, some .sell, roundCents (price * discount), min (s.held symbol) draw⟩

/-- A purchase at the start price. -/
def startOrder (symbol : List Char) (startPrice : ℚ) (qty : ℤ) : AIOrder :=
  let qty := if s.capital < qty * startPrice then
      max 1 (truncate (s.capital * (5 / 100) / startPrice))
    else qty
  ⟨symbol, some .buy, roundCents startPrice, qty⟩

/-- `random.choice(["Buy", "Sell"])`. -/
def side : Side := if s.choices.side % 2 = 0 then .buy else .sell

/-- `active_syms`. -/
def activeSyms : List (List Char × Quote) :=
  s.bbos.filter fun entry => 0 < entry.2.bestBid ∨ 0 < entry.2.bestAsk

/-- `_strategy_random`. -/
def strategyRandom : Option AIOrder :=
  match choice s.activeSyms s.choices.symbol with
  | none =>
    (choice startPrices s.choices.symbol).map fun (symbol, startPrice) =>
      let qty := uniform 10 50 s.choices.quantity
      if s.side = .sell ∧ 0 < s.held symbol then
        ⟨symbol, some .sell, roundCents startPrice, min (s.held symbol) qty⟩
      else s.startOrder symbol startPrice qty
  | some (symbol, bbo) =>
    let qty := uniform 10 100 s.choices.quantity
    match s.side with
    | .buy => s.buyOrder symbol (orElse bbo.bestAsk bbo.bestBid) (1 / 10) (1002 / 1000) qty
    | .sell =>
      if s.held symbol ≤ 0 then
        s.buyOrder symbol (orElse bbo.bestAsk bbo.bestBid) (5 / 100) 1 qty
      else s.sellOrder symbol (orElse bbo.bestBid bbo.bestAsk) (998 / 1000) qty

/-- The symbols with three prices, and their trends. -/
def trends : List (List Char × ℚ) :=
  (s.priceHistory.filter fun entry => 3 ≤ entry.2.length).map (Prod.map id trend)

/-- `_strategy_momentum`. -/
def strategyMomentum : Option AIOrder :=
  match strongest Prod.snd s.trends with
  | none => s.strategyRandom
  | some (symbol, trend) =>
    (s.bbos.lookup symbol).bind fun bbo =>
      if 0 < trend then
        s.buyOrder symbol (orElse bbo.bestAsk bbo.bestBid) (1 / 10) (1001 / 1000)
          (uniform 10 100 s.choices.quantity)
      else
        s.sellOrder symbol (orElse bbo.bestBid bbo.bestAsk) (999 / 1000)
          (uniform 10 50 s.choices.quantity)

/-- The symbols with ten prices. -/
def deviations : List (List Char × List ℚ) := s.priceHistory.filter fun entry => 10 ≤ entry.2.length

/-- `_strategy_mean_revert`. -/
def strategyMeanRevert : Option AIOrder :=
  match strongest (fun entry => deviation entry.2) s.deviations with
  | none => s.strategyRandom
  | some (symbol, prices) =>
    (s.bbos.lookup symbol).bind fun bbo =>
      if deviation prices < -1 / 100 then
        s.buyOrder symbol (orElse bbo.bestAsk (average prices)) (15 / 100) 1
          (uniform 10 80 s.choices.quantity)
      else if 1 / 100 < deviation prices then
        s.sellOrder symbol (orElse bbo.bestBid (average prices)) 1
          (uniform 10 60 s.choices.quantity)
      else none

/-- The quantity of an answer after the checks of its side, where these raise no exception. -/
def llmQuantity (symbol : List Char) (side : Option Side) (quantity : ℤ) (price : ℚ) : ℤ :=
  match side with
  | some .buy =>
    if s.capital * (1 / 10) < quantity * price then
      max 1 (truncate (s.capital * (1 / 10) / price))
    else quantity
  | some .sell => min quantity (s.held symbol)
  | none => quantity

/-- `_strategy_llm`. -/
def strategyLLM : LLMAnswer → Option AIOrder
  | .failed => s.strategyRandom
  | .nothing => none
  | .order symbol side quantity price =>
    -- the limit of a purchase for nothing is a division by zero
    if side = some .buy ∧ s.capital * (1 / 10) < quantity * price ∧ price = 0 then s.strategyRandom
    else if side = some .sell ∧ s.held symbol ≤ 0 then none
    else
      let qty := s.llmQuantity symbol side quantity price
      if price ≤ 0 ∨ qty ≤ 0 then none else some ⟨symbol, side, roundCents price, qty⟩

/-- What the strategy of a member returns. -/
def order : AIStrategy → Option AIOrder
  | .momentum => s.strategyMomentum
  | .meanRevert => s.strategyMeanRevert
  | .random => s.strategyRandom
  | .llm answer => s.strategyLLM answer

end Setting

/-! ### What should hold -/

namespace Setting

variable (s : Setting)

/-- The order is for a positive quantity, and a purchase that the capital covers at its limit or a
sale of what is held. -/
structure Respects (order : AIOrder) : Prop where
  quantity : 0 < order.quantity
  side : order.side = some .buy ∧ order.quantity * order.price ≤ s.capital ∨
    order.side = some .sell ∧ order.quantity ≤ s.held order.symbol

/-- The capital covers a share at a price, but not at the limit above it. -/
def Marginal (price markup : ℚ) : Prop :=
  0 < price ∧ price ≤ s.capital ∧ s.capital < roundCents (price * markup)

/-- What it takes for the random strategy: without quotes, that the capital covers a share at the
start price, unless it sells; with quotes, that it is not marginal for a purchase. -/
def FairRandom : Prop :=
  match choice s.activeSyms s.choices.symbol with
  | none => ∀ entry ∈ choice startPrices s.choices.symbol,
    s.side = .buy ∨ s.held entry.1 ≤ 0 → entry.2 ≤ s.capital
  | some (symbol, bbo) =>
    match s.side with
    | .buy => ¬s.Marginal (orElse bbo.bestAsk bbo.bestBid) (1002 / 1000)
    | .sell => s.held symbol ≤ 0 → ¬s.Marginal (orElse bbo.bestAsk bbo.bestBid) 1

def FairMomentum : Prop :=
  match strongest Prod.snd s.trends with
  | none => s.FairRandom
  | some (symbol, trend) => 0 < trend → ∀ bbo ∈ s.bbos.lookup symbol,
    ¬s.Marginal (orElse bbo.bestAsk bbo.bestBid) (1001 / 1000)

def FairMeanRevert : Prop :=
  match strongest (fun entry => deviation entry.2) s.deviations with
  | none => s.FairRandom
  | some (symbol, prices) => deviation prices < -1 / 100 → ∀ bbo ∈ s.bbos.lookup symbol,
    ¬s.Marginal (orElse bbo.bestAsk (average prices)) 1

/-- For a language model: that the capital covers a share at the rounded price, where it buys, and
that it either buys or sells. -/
def FairLLM : LLMAnswer → Prop
  | .failed => s.FairRandom
  | .nothing => True
  | .order _ (some .buy) quantity price =>
    if s.capital * (1 / 10) < quantity * price ∧ price = 0 then s.FairRandom
    else 0 < price → 0 < quantity ∨ s.capital * (1 / 10) < quantity * price →
      roundCents price ≤ s.capital
  | .order _ (some .sell) _ _ => True
  | .order _ none quantity price => price ≤ 0 ∨ quantity ≤ 0

def Fair : AIStrategy → Prop
  | .momentum => s.FairMomentum
  | .meanRevert => s.FairMeanRevert
  | .random => s.FairRandom
  | .llm answer => s.FairLLM answer

end Setting

/-! ### Numbers -/

variable {s : Setting} {x price fraction markup : ℚ} {n q draw : ℤ} {symbol : List Char}

lemma truncate_le (h : 1 ≤ truncate x) : (truncate x : ℚ) ≤ x := by
  rw [truncate] at h ⊢
  split_ifs at h ⊢ with hx
  · exact Int.floor_le x
  · have hceil : ⌈x⌉ ≤ 0 := Int.ceil_le.mpr (by exact_mod_cast (not_le.mp hx).le)
    omega

/-- A share at least, or no more than the bound. -/
lemma max_one_cases (h : n ≤ truncate x) :
    max 1 n = 1 ∨ 1 ≤ max 1 n ∧ ((max 1 n : ℤ) : ℚ) ≤ x := by
  by_cases hn : 1 ≤ n
  · have hle : (n : ℚ) ≤ truncate x := by exact_mod_cast h
    rw [max_eq_right hn]
    exact Or.inr ⟨hn, hle.trans (truncate_le (hn.trans h))⟩
  · exact Or.inl (max_eq_left (by omega))

lemma roundCents_nonneg (h : 0 ≤ x) : 0 ≤ roundCents x := by
  have hcents : 0 ≤ ⌊100 * x⌋ := Int.floor_nonneg.mpr (by positivity)
  have hcents' : (0 : ℚ) ≤ ⌊100 * x⌋ := by exact_mod_cast hcents
  rw [roundCents]
  split_ifs
  · positivity
  · push_cast
    positivity

/-- Rounding at most doubles. -/
lemma roundCents_le (h : 0 ≤ x) : roundCents x ≤ 2 * x := by
  have hcents : 0 ≤ ⌊100 * x⌋ := Int.floor_nonneg.mpr (by positivity)
  have hcents' : (0 : ℚ) ≤ ⌊100 * x⌋ := by exact_mod_cast hcents
  have hle := Int.floor_le (100 * x)
  rw [roundCents]
  split_ifs with hdown
  · linarith
  · -- then the rest is a half at least
    have hrest : 1 / 2 ≤ 100 * x - ⌊100 * x⌋ := not_lt.mp fun hlt => hdown (Or.inl hlt)
    push_cast
    linarith

lemma roundCents_intCast (n : ℤ) : roundCents n = n := by
  have hfloor : ⌊100 * (n : ℚ)⌋ = 100 * n := by
    have hcast : 100 * (n : ℚ) = ((100 * n : ℤ) : ℚ) := by push_cast; rfl
    rw [hcast, Int.floor_intCast]
  rw [roundCents, hfloor]
  rw [if_pos (Or.inl (by push_cast; norm_num))]
  push_cast
  ring

/-- A purchase for a part of the capital is covered at a limit not too far above the price. -/
lemma cost_le (markup : ℚ) (hq : 1 ≤ q) (hprice : 0 < price) (hmarkup : 0 ≤ markup)
    (hfraction : 0 ≤ fraction) (hboth : 2 * markup * fraction ≤ 1)
    (hle : q * price ≤ s.capital * fraction) :
    q * roundCents (price * markup) ≤ s.capital ∧ roundCents (price * markup) ≤ s.capital := by
  have hq' : (1 : ℚ) ≤ q := by exact_mod_cast hq
  have hcapital : 0 ≤ s.capital := by
    by_contra hneg
    have hcost : 0 < q * price := by positivity
    have hpart : s.capital * fraction ≤ 0 :=
      mul_nonpos_of_nonpos_of_nonneg (not_le.mp hneg).le hfraction
    linarith
  have hround := roundCents_le (mul_nonneg hprice.le hmarkup)
  have hnonneg := roundCents_nonneg (mul_nonneg hprice.le hmarkup)
  have hcovered : q * roundCents (price * markup) ≤ s.capital := by
    calc q * roundCents (price * markup) ≤ q * (2 * (price * markup)) := by gcongr
      _ = 2 * markup * (q * price) := by ring
      _ ≤ 2 * markup * (s.capital * fraction) := by gcongr
      _ = s.capital * (2 * markup * fraction) := by ring
      _ ≤ s.capital := mul_le_of_le_one_right hcapital hboth
  exact ⟨hcovered, (le_mul_of_one_le_left hnonneg hq').trans hcovered⟩

/-! ### Orders -/

namespace Setting

lemma respects_buy {order : AIOrder} (hside : order.side = some .buy) :
    s.Respects order ↔ 0 < order.quantity ∧ order.quantity * order.price ≤ s.capital := by
  constructor
  · rintro ⟨hpos, ⟨-, hle⟩ | ⟨hsell, -⟩⟩
    · exact ⟨hpos, hle⟩
    · rw [hside] at hsell
      cases hsell
  · rintro ⟨hpos, hle⟩
    exact ⟨hpos, Or.inl ⟨hside, hle⟩⟩

lemma respects_sell {order : AIOrder} (hside : order.side = some .sell) (hpos : 0 < order.quantity)
    (hle : order.quantity ≤ s.held order.symbol) : s.Respects order :=
  ⟨hpos, Or.inr ⟨hside, hle⟩⟩

/-- What is bought is one share, or for a part of the capital. -/
lemma buyOrder_eq (symbol : List Char) (fraction markup : ℚ) (draw : ℤ) (hprice : 0 < price) :
    ∃ q : ℤ, (q = 1 ∨ 1 ≤ q ∧ q * price ≤ s.capital * fraction) ∧
      s.buyOrder symbol price fraction markup draw = if s.capital < q * price then none
        else some ⟨symbol, some .buy, roundCents (price * markup), q⟩ := by
  refine ⟨max 1 (min (truncate (s.capital * fraction / price)) draw), ?_, ?_⟩
  · rcases max_one_cases (min_le_left (truncate (s.capital * fraction / price)) draw) with
      hone | ⟨hpos, hle⟩
    · exact Or.inl hone
    · exact Or.inr ⟨hpos, (le_div_iff₀ hprice).mp hle⟩
  · exact if_neg (not_le.mpr hprice)

/-- A purchase is covered exactly if the price is not marginal. -/
lemma respects_buyOrder_iff (symbol : List Char) (draw : ℤ) (hmarkup : 0 ≤ markup)
    (hfraction : 0 ≤ fraction) (hboth : 2 * markup * fraction ≤ 1) :
    (∀ order ∈ s.buyOrder symbol price fraction markup draw, s.Respects order) ↔
      ¬s.Marginal price markup := by
  by_cases hprice : price ≤ 0
  · rw [buyOrder, if_pos hprice]
    exact iff_of_true (by simp) fun h => absurd h.1 (not_lt.mpr hprice)
  rw [not_le] at hprice
  obtain ⟨q, hq, horder⟩ := buyOrder_eq (s := s) symbol fraction markup draw hprice
  rw [horder]
  rcases hq with rfl | ⟨hpos, hle⟩
  · -- one share, whatever part of the capital it takes
    rw [Int.cast_one, one_mul, Marginal]
    split_ifs with hcapital
    · exact iff_of_true (by simp) fun h => absurd h.2.1 (not_le.mpr hcapital)
    · simp [respects_buy, hprice, not_lt.mp hcapital]
  · obtain ⟨hcost, hshare⟩ := cost_le markup hpos hprice hmarkup hfraction hboth hle
    refine iff_of_true ?_ fun h => absurd h.2.2 (not_lt.mpr hshare)
    intro order hmem
    split_ifs at hmem
    · cases hmem
    · cases hmem
      exact (respects_buy rfl).mpr ⟨hpos, hcost⟩

lemma mem_sellOrder {discount : ℚ} {order : AIOrder}
    (h : order ∈ s.sellOrder symbol price discount draw) : 0 < s.held symbol ∧ 0 < price ∧
      order = ⟨symbol, some .sell, roundCents (price * discount), min (s.held symbol) draw⟩ := by
  rw [sellOrder] at h
  split_ifs at h with hheld hprice
  · cases h
  · cases h
  · cases h
    exact ⟨not_le.mp hheld, not_le.mp hprice, rfl⟩

/-- A sale is of what is held. -/
lemma respects_sellOrder {discount : ℚ} (hdraw : 1 ≤ draw) :
    ∀ order ∈ s.sellOrder symbol price discount draw, s.Respects order := by
  intro order horder
  obtain ⟨hheld, -, rfl⟩ := mem_sellOrder horder
  exact respects_sell rfl (lt_min hheld (zero_lt_one.trans_le hdraw)) (min_le_left _ _)

lemma startPrices_spec : ∀ entry ∈ startPrices, ∃ n : ℕ, 0 < n ∧ entry.2 = (n : ℤ) := by
  simp only [startPrices, List.forall_mem_cons]
  exact ⟨⟨154, by norm_num⟩, ⟨324, by norm_num⟩, ⟨141, by norm_num⟩, ⟨375, by norm_num⟩,
    ⟨201, by norm_num⟩, ⟨320, by norm_num⟩, ⟨146, by norm_num⟩, by simp⟩

/-- A purchase at the start price is covered exactly if a share is. -/
lemma respects_startOrder_iff {startPrice : ℚ} (symbol : List Char) (hpos : 0 < startPrice)
    (hround : roundCents startPrice = startPrice) (hdraw : 1 ≤ draw) :
    s.Respects (s.startOrder symbol startPrice draw) ↔ startPrice ≤ s.capital := by
  rw [respects_buy rfl, startOrder]
  dsimp only
  rw [hround]
  split_ifs with hcapital
  · rcases max_one_cases (le_refl (truncate (s.capital * (5 / 100) / startPrice))) with
      hone | ⟨hq, hle⟩
    · rw [hone]
      simp
    · rw [le_div_iff₀ hpos] at hle
      obtain ⟨hcost, hshare⟩ := cost_le 1 hq hpos (by norm_num) (by norm_num)
        (by norm_num) hle
      rw [mul_one, hround] at hcost hshare
      exact iff_of_true ⟨hq, hcost⟩ hshare
  · rw [not_lt] at hcapital
    have hdraw' : (1 : ℚ) ≤ draw := by exact_mod_cast hdraw
    refine iff_of_true ⟨by omega, hcapital⟩ ?_
    exact (le_mul_of_one_le_left hpos.le hdraw').trans hcapital

/-! ### Strategies -/

lemma startPrice_spec {entry : List Char × ℚ} (h : entry ∈ startPrices) :
    0 < entry.2 ∧ roundCents entry.2 = entry.2 := by
  obtain ⟨n, hpos, heq⟩ := startPrices_spec entry h
  rw [heq]
  exact ⟨by exact_mod_cast hpos, roundCents_intCast n⟩

lemma respects_random_iff (s : Setting) :
    (∀ order ∈ s.strategyRandom, s.Respects order) ↔ s.FairRandom := by
  rw [strategyRandom, FairRandom]
  cases choice s.activeSyms s.choices.symbol with
  | none =>
    have hdraw := (uniform_mem 10 50 (by decide) s.choices.quantity).1
    cases hentry : choice startPrices s.choices.symbol with
    | none => simp
    | some entry =>
      obtain ⟨hpos, hround⟩ := startPrice_spec (mem_of_choice hentry)
      simp only [Option.map_some, Option.mem_some_iff, forall_eq']
      split_ifs with hsell
      · refine iff_of_true (respects_sell rfl (lt_min hsell.2 (by omega)) (min_le_left _ _)) ?_
        rintro (hbuy | hheld)
        · rw [hsell.1] at hbuy
          cases hbuy
        · exact absurd hsell.2 (not_lt.mpr hheld)
      · rw [respects_startOrder_iff entry.1 hpos hround (by omega)]
        refine ⟨fun h _ => h, fun h => h ?_⟩
        cases hside : s.side with
        | buy => exact Or.inl rfl
        | sell => exact Or.inr (not_lt.mp fun hheld => hsell ⟨hside, hheld⟩)
  | some entry =>
    have hdraw := (uniform_mem 10 100 (by decide) s.choices.quantity).1
    cases s.side with
    | buy =>
      exact respects_buyOrder_iff entry.1 _ (by norm_num) (by norm_num) (by norm_num)
    | sell =>
      by_cases hheld : s.held entry.1 ≤ 0
      · simp only [hheld, true_implies]
        exact respects_buyOrder_iff entry.1 _ (by norm_num) (by norm_num) (by norm_num)
      · simp only [if_neg hheld]
        exact iff_of_true (respects_sellOrder (by omega)) fun h => absurd h hheld

lemma respects_momentum_iff (s : Setting) :
    (∀ order ∈ s.strategyMomentum, s.Respects order) ↔ s.FairMomentum := by
  rw [strategyMomentum, FairMomentum]
  cases strongest Prod.snd s.trends with
  | none => exact respects_random_iff s
  | some candidate =>
    obtain ⟨symbol, trend⟩ := candidate
    have hdraw := (uniform_mem 10 50 (by decide) s.choices.quantity).1
    dsimp only
    cases s.bbos.lookup symbol with
    | none => simp
    | some bbo =>
      simp only [Option.bind_some, Option.mem_some_iff, forall_eq']
      split_ifs with htrend
      · simp only [htrend, true_implies]
        exact respects_buyOrder_iff symbol _ (by norm_num) (by norm_num) (by norm_num)
      · exact iff_of_true (respects_sellOrder (by omega)) fun h => absurd h htrend

lemma respects_meanRevert_iff (s : Setting) :
    (∀ order ∈ s.strategyMeanRevert, s.Respects order) ↔ s.FairMeanRevert := by
  rw [strategyMeanRevert, FairMeanRevert]
  cases strongest (fun entry : List Char × List ℚ => deviation entry.2) s.deviations with
  | none => exact respects_random_iff s
  | some candidate =>
    obtain ⟨symbol, prices⟩ := candidate
    have hdraw := (uniform_mem 10 60 (by decide) s.choices.quantity).1
    dsimp only
    cases s.bbos.lookup symbol with
    | none => simp
    | some bbo =>
      simp only [Option.bind_some, Option.mem_some_iff, forall_eq']
      split_ifs with hdown hup
      · simp only [hdown, true_implies]
        exact respects_buyOrder_iff symbol _ (by norm_num) (by norm_num) (by norm_num)
      · exact iff_of_true (respects_sellOrder (by omega)) fun h => absurd h hdown
      · exact iff_of_true (by simp) fun h => absurd h hdown

/-- What a language model buys is covered exactly if a share is, at the rounded price. -/
lemma respects_llmBuy_iff (symbol : List Char) {quantity : ℤ} (hprice : 0 < price)
    (hqty : 0 < quantity ∨ s.capital * (1 / 10) < quantity * price) :
    s.Respects ⟨symbol, some .buy, roundCents price,
      s.llmQuantity symbol (some .buy) quantity price⟩ ↔ roundCents price ≤ s.capital := by
  have hcost (q : ℤ) (hq : 1 ≤ q) (hle : q * price ≤ s.capital * (1 / 10)) :
      q * roundCents price ≤ s.capital ∧ roundCents price ≤ s.capital := by
    have hcost := cost_le 1 hq hprice (by norm_num) (by norm_num) (by norm_num) hle
    rwa [mul_one] at hcost
  rw [respects_buy rfl, llmQuantity]
  dsimp only
  split_ifs with hpart
  · rcases max_one_cases (le_refl (truncate (s.capital * (1 / 10) / price))) with hone | ⟨hq, hle⟩
    · rw [hone]
      simp
    · rw [le_div_iff₀ hprice] at hle
      obtain ⟨hcovered, hshare⟩ := hcost _ hq hle
      exact iff_of_true ⟨hq, hcovered⟩ hshare
  · have hpos := hqty.resolve_right hpart
    obtain ⟨hcovered, hshare⟩ := hcost quantity hpos (not_lt.mp hpart)
    exact iff_of_true ⟨hpos, hcovered⟩ hshare

lemma respects_llmBuyOrder_iff (symbol : List Char) (quantity : ℤ) (price : ℚ) :
    (∀ order ∈ s.strategyLLM (.order symbol (some .buy) quantity price), s.Respects order) ↔
      s.FairLLM (.order symbol (some .buy) quantity price) := by
  rw [strategyLLM, FairLLM]
  by_cases hzero : s.capital * (1 / 10) < quantity * price ∧ price = 0
  · rw [if_pos ⟨rfl, hzero⟩, if_pos hzero]
    exact respects_random_iff s
  · rw [if_neg fun h => hzero h.2, if_neg hzero, if_neg (by simp)]
    -- the quantity is positive exactly if there is something to buy
    have hqty : 0 < s.llmQuantity symbol (some .buy) quantity price ↔
        0 < quantity ∨ s.capital * (1 / 10) < quantity * price := by
      rw [llmQuantity]
      split_ifs with hpart
      · exact iff_of_true (by omega) (Or.inr hpart)
      · exact (or_iff_left hpart).symm
    dsimp only
    split_ifs with hnone
    · refine iff_of_true (by simp) fun hprice hbuys => ?_
      exact absurd hnone (not_or.mpr ⟨not_le.mpr hprice, not_le.mpr (hqty.mpr hbuys)⟩)
    · rw [not_or, not_le, not_le] at hnone
      have hbuys := hqty.mp hnone.2
      simp only [Option.mem_some_iff, forall_eq', hnone.1, hbuys, true_implies]
      exact respects_llmBuy_iff symbol hnone.1 hbuys

/-- What a language model sells is held. -/
lemma respects_llmSell (symbol : List Char) (quantity : ℤ) (price : ℚ) :
    ∀ order ∈ s.strategyLLM (.order symbol (some .sell) quantity price), s.Respects order := by
  rw [strategyLLM, if_neg (by simp)]
  dsimp only
  intro order horder
  split_ifs at horder with hheld hnone
  · cases horder
  · cases horder
  · cases horder
    rw [not_or, not_le, not_le] at hnone
    exact respects_sell rfl hnone.2 (min_le_right _ _)

/-- A third side is neither. -/
lemma respects_llmOther_iff (symbol : List Char) (quantity : ℤ) (price : ℚ) :
    (∀ order ∈ s.strategyLLM (.order symbol none quantity price), s.Respects order) ↔
      price ≤ 0 ∨ quantity ≤ 0 := by
  rw [strategyLLM, if_neg (by simp), if_neg (by simp), llmQuantity]
  dsimp only
  split_ifs with hnone
  · exact iff_of_true (by simp) hnone
  · refine iff_of_false (fun h => ?_) hnone
    rcases (h _ rfl).side with ⟨hside, -⟩ | ⟨hside, -⟩
    · cases hside
    · cases hside

lemma respects_llm_iff (s : Setting) (answer : LLMAnswer) :
    (∀ order ∈ s.strategyLLM answer, s.Respects order) ↔ s.FairLLM answer := by
  cases answer with
  | failed => exact respects_random_iff s
  | nothing => exact iff_of_true (by simp [strategyLLM]) trivial
  | order symbol side quantity price =>
    cases side with
    | none => exact respects_llmOther_iff symbol quantity price
    | some side =>
      cases side with
      | buy => exact respects_llmBuyOrder_iff symbol quantity price
      | sell => exact iff_of_true (respects_llmSell symbol quantity price) trivial

/-- What a strategy orders is covered by the capital or by what is held exactly if it is fair. -/
lemma respects_order_iff (s : Setting) (strategy : AIStrategy) :
    (∀ order ∈ s.order strategy, s.Respects order) ↔ s.Fair strategy := by
  cases strategy with
  | momentum => exact respects_momentum_iff s
  | meanRevert => exact respects_meanRevert_iff s
  | random => exact respects_random_iff s
  | llm answer => exact respects_llm_iff s answer

/-! ### Prices -/

lemma price_buyOrder (hmarkup : 0 ≤ markup) :
    ∀ order ∈ s.buyOrder symbol price fraction markup draw, 0 ≤ order.price := by
  intro order horder
  rw [buyOrder] at horder
  dsimp only at horder
  split_ifs at horder with hprice hcapital
  · cases horder
  · cases horder
  · cases horder
    exact roundCents_nonneg (mul_nonneg (not_le.mp hprice).le hmarkup)

lemma price_sellOrder {discount : ℚ} (hdiscount : 0 ≤ discount) :
    ∀ order ∈ s.sellOrder symbol price discount draw, 0 ≤ order.price := by
  intro order horder
  obtain ⟨-, hprice, rfl⟩ := mem_sellOrder horder
  exact roundCents_nonneg (mul_nonneg hprice.le hdiscount)

lemma price_random (s : Setting) : ∀ order ∈ s.strategyRandom, 0 ≤ order.price := by
  intro order horder
  rw [strategyRandom] at horder
  cases hactive : choice s.activeSyms s.choices.symbol with
  | none =>
    rw [hactive] at horder
    obtain ⟨entry, hentry, rfl⟩ := Option.map_eq_some_iff.mp horder
    have hround := roundCents_nonneg (startPrice_spec (mem_of_choice hentry)).1.le
    dsimp only
    split_ifs
    · exact hround
    · exact hround
  | some entry =>
    rw [hactive] at horder
    dsimp only at horder
    cases hside : s.side with
    | buy =>
      rw [hside] at horder
      exact price_buyOrder (by norm_num) order horder
    | sell =>
      rw [hside] at horder
      dsimp only at horder
      split_ifs at horder
      · exact price_buyOrder zero_le_one order horder
      · exact price_sellOrder (by norm_num) order horder

lemma price_momentum (s : Setting) : ∀ order ∈ s.strategyMomentum, 0 ≤ order.price := by
  intro order horder
  rw [strategyMomentum] at horder
  cases hstrongest : strongest Prod.snd s.trends with
  | none =>
    rw [hstrongest] at horder
    exact price_random s order horder
  | some candidate =>
    rw [hstrongest] at horder
    obtain ⟨bbo, -, hbbo⟩ := Option.bind_eq_some_iff.mp horder
    split_ifs at hbbo
    · exact price_buyOrder (by norm_num) order hbbo
    · exact price_sellOrder (by norm_num) order hbbo

lemma price_meanRevert (s : Setting) : ∀ order ∈ s.strategyMeanRevert, 0 ≤ order.price := by
  intro order horder
  rw [strategyMeanRevert] at horder
  cases hstrongest : strongest (fun entry : List Char × List ℚ => deviation entry.2)
      s.deviations with
  | none =>
    rw [hstrongest] at horder
    exact price_random s order horder
  | some candidate =>
    rw [hstrongest] at horder
    obtain ⟨bbo, -, hbbo⟩ := Option.bind_eq_some_iff.mp horder
    split_ifs at hbbo
    · exact price_buyOrder zero_le_one order hbbo
    · exact price_sellOrder zero_le_one order hbbo

lemma price_llm (s : Setting) (answer : LLMAnswer) :
    ∀ order ∈ s.strategyLLM answer, 0 ≤ order.price := by
  intro order horder
  cases answer with
  | failed => exact price_random s order horder
  | nothing => cases horder
  | order symbol side quantity price =>
    rw [strategyLLM] at horder
    dsimp only at horder
    split_ifs at horder with hzero hheld hnone
    · exact price_random s order horder
    · cases horder
    · cases horder
    · cases horder
      rw [not_or, not_le] at hnone
      exact roundCents_nonneg hnone.1.le

lemma price_order (s : Setting) (strategy : AIStrategy) :
    ∀ order ∈ s.order strategy, 0 ≤ order.price := by
  cases strategy with
  | momentum => exact price_momentum s
  | meanRevert => exact price_meanRevert s
  | random => exact price_random s
  | llm answer => exact price_llm s answer

end Setting

/-! ### Bookings -/

section

variable {M D : Type*}

/-- A full fill of an order, at its limit. -/
structure AIOrder.FilledBy (order : AIOrder) (trade : BookedTrade M (List Char) D ℚ) : Prop where
  symbol : trade.symbol = order.symbol
  side : some trade.side = order.side
  quantity : trade.quantity = order.quantity
  price : trade.price = order.price

/-- The capital and the holdings are those of a member. -/
structure Setting.IsOf (s : Setting) (db : Database M (List Char) D ℚ) (memberId : M) : Prop where
  capital : db.members memberId = some s.capital
  holdings : db.getHoldings memberId = s.holdings

variable {db : Database M (List Char) D ℚ} {trade : BookedTrade M (List Char) D ℚ}
  {order : AIOrder}

lemma Setting.IsOf.held_eq {memberId : M} (h : s.IsOf db memberId) (symbol : List Char) :
    db.held memberId symbol = s.held symbol := by
  rw [Database.held, h.holdings, Setting.held]

lemma Setting.Respects.covers (h : s.Respects order) (hs : s.IsOf db trade.memberId)
    (hfill : order.FilledBy trade) : db.Covers trade := by
  intro hsell _
  rw [hs.held_eq, hfill.quantity, hfill.symbol]
  have hside : order.side = some .sell := by rw [← hfill.side, hsell]
  rcases h.side with ⟨hbuy, -⟩ | ⟨-, hle⟩
  · rw [hbuy] at hside
    cases hside
  · exact hle

variable [DecidableEq M] [DecidableEq D]

/-- A booking that a member can afford is paid and delivered in full: it makes no capital negative,
and what it takes from a holding was there. -/
structure Database.Affords (db : Database M (List Char) D ℚ)
    (trade : BookedTrade M (List Char) D ℚ) (capital : ℚ) : Prop where
  paid : (db.recordTrade trade).members trade.memberId
    = some (capital + trade.payment trade.memberId)
  nonneg : 0 ≤ capital → 0 ≤ capital + trade.payment trade.memberId
  held : ∀ symbol, (db.recordTrade trade).held trade.memberId symbol
    = db.held trade.memberId symbol + trade.delivery trade.memberId symbol

/-- A full fill of an order within the limits can be afforded. -/
lemma Setting.Respects.affords (h : s.Respects order) (hprice : 0 ≤ order.price)
    (hs : s.IsOf db trade.memberId) (hfill : order.FilledBy trade) :
    db.Affords trade s.capital := by
  have hcovers := h.covers hs hfill
  have hmember : (db.members trade.memberId).isSome = true := by rw [hs.capital]; rfl
  refine ⟨?_, fun hcapital => ?_, fun symbol => ?_⟩
  · rw [hcovers.members hmember, hs.capital]
    rfl
  · rw [BookedTrade.payment, if_pos rfl, hfill.quantity, hfill.price]
    rcases h.side with ⟨hbuy, hle⟩ | ⟨hsell, -⟩
    · have hside : trade.side = .buy := Option.some.inj (hfill.side.trans hbuy)
      rw [hside]
      dsimp only
      linarith
    · have hside : trade.side = .sell := Option.some.inj (hfill.side.trans hsell)
      have hquantity : (0 : ℚ) ≤ order.quantity := by exact_mod_cast h.quantity.le
      rw [hside]
      exact add_nonneg hcapital (mul_nonneg hquantity hprice)
  · rw [Database.recordTrade_held]
    exact max_eq_right (hcovers.delivery_le hmember symbol)

end

/-- The orders of a strategy are within the capital and the holdings of the member, and full fills
of them can be afforded, exactly if what it looks at is fair: no share that it buys is within the
capital before the limit is put above the price, and not after. -/
theorem orders_respect_iff {M D : Type*} [DecidableEq M] [DecidableEq D] (s : Setting)
    (strategy : AIStrategy) :
    (∀ order ∈ s.order strategy, s.Respects order ∧
      ∀ (db : Database M (List Char) D ℚ) (trade : BookedTrade M (List Char) D ℚ),
        s.IsOf db trade.memberId → order.FilledBy trade → db.Affords trade s.capital) ↔
    s.Fair strategy := by
  rw [← s.respects_order_iff]
  refine forall₂_congr fun order horder => and_iff_left_of_imp fun h db trade hs hfill => ?_
  exact h.affords (s.price_order strategy order horder) hs hfill

/-- A member whose capital is the price of a share. -/
def oneShare : Setting where
  capital := 100
  holdings := fun _ => none
  bbos := [("AAPL".toList, { bestAsk := 100 })]
  priceHistory := []
  choices := ⟨0, 0, 0⟩

/-- What it has is in new tables. -/
def oneShareDb : Database ℕ (List Char) ℕ ℚ := Database.initDb [(0, 100)]

/-- It buys the share, at a limit that it cannot pay. -/
def oneShareFill : BookedTrade ℕ (List Char) ℕ ℚ where
  memberId := 0
  symbol := "AAPL".toList
  side := .buy
  quantity := 1
  price := 1002 / 10
  clOrdId := []
  tradingDate := 0
  quantity_pos := one_pos

/-- The booking leaves it with a debt. -/
theorem not_orders_respect : ∃ order ∈ oneShare.order .random,
    ¬oneShare.Respects order ∧ oneShare.IsOf oneShareDb oneShareFill.memberId ∧
      order.FilledBy oneShareFill ∧ ¬oneShareDb.Affords oneShareFill oneShare.capital := by
  refine ⟨⟨"AAPL".toList, some .buy, 1002 / 10, 1⟩, ?_, ?_, ⟨rfl, rfl⟩, ⟨rfl, rfl, rfl, rfl⟩, ?_⟩
  · rw [Option.mem_def]
    decide +kernel
  · rw [Setting.respects_buy rfl]
    norm_num [oneShare]
  · intro h
    have hnonneg := h.nonneg (by norm_num [oneShare])
    norm_num [oneShare, oneShareFill, BookedTrade.payment] at hnonneg

end EuNEx.Clearing
