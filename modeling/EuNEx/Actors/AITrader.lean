import EuNEx.Actors.ClearingHouse
import EuNEx.Actors.SessionIds
import EuNEx.Lib.Random

/-!
# The AI trader

`actors/AITraderActor.cpp`. `tradeRound` gives each member a turn; what a member pushes may come
back as events before the turn of the next one, so a turn is a step of its own. In a `BBO` zero
stands for an empty side, which the strategies take for a price.
-/

namespace EuNEx

open Random (uniform uniform_mem)

structure BBO where
  bestBid : ℤ := 0
  bestAsk : ℤ := 0
deriving DecidableEq, Repr

/-- The random numbers of a turn. -/
structure Draws where
  symbol : ℕ
  side : ℕ
  spread : ℕ
  qty : ℕ
deriving DecidableEq, Repr

structure AITraderActor where
  symbols : List ℕ
  nextClOrdId : ℕ := 50000
  bbos : Finmap fun _ : ℕ => BBO := ∅
  priceHistory : Finmap fun _ : ℕ => List ℤ := ∅

namespace AITraderActor

def maxPriceHistory : ℕ := 50

/-- `PRICE_SCALE / 100`. -/
def tick : ℤ := priceScale / 100

variable (t : AITraderActor)

def onBookUpdate (event : BookUpdateEvent) : AITraderActor :=
  let bbo : BBO :=
    { bestBid := (event.bids.head?.map BookUpdateEvent.Level.price).getD 0
      bestAsk := (event.asks.head?.map BookUpdateEvent.Level.price).getD 0 }
  { t with bbos := t.bbos.insert event.symbolIdx bbo }

/-- The prices of a symbol, latest last. -/
def history (symIdx : ℕ) : List ℤ := (t.priceHistory.lookup symIdx).getD []

def onTrade (trade : Trade) : AITraderActor :=
  let history := t.history trade.symbolIdx ++ [trade.price]
  let history := if maxPriceHistory < history.length then history.tail else history
  { t with priceHistory := t.priceHistory.insert trade.symbolIdx history }

def referencePrice : ℕ → ℤ
  | 1 => 154 * priceScale
  | 2 => 324 * priceScale
  | 3 => 141 * priceScale
  | 4 => 375 * priceScale
  | 5 => 201 * priceScale
  | 6 => 320 * priceScale
  | 7 => 146 * priceScale
  | _ => 100 * priceScale

/-! ### The strategies -/

section

variable (clOrdId : ℕ) (member : AITraderMember) (symIdx : ℕ) (draws : Draws)

/-- What every strategy pushes. -/
def limitOrder (side : Side) (price qty : ℤ) : NewOrderEvent where
  clOrdId := clOrdId
  symbolIdx := symIdx
  side := side
  ordType := .limit
  tif := .day
  price := price
  quantity := qty.toNat
  sessionId := member.sessionId

/-- A price some ticks away from another. -/
def offsetPrice (price ticks : ℤ) : ℤ :=
  let price := price + ticks * tick
  if price ≤ 0 then priceScale else price

def randomSide : Side := if uniform 0 1 draws.side ≠ 0 then .buy else .sell

def submitOrder : NewOrderEvent :=
  limitOrder clOrdId member symIdx (randomSide draws)
    (offsetPrice (referencePrice symIdx) (uniform (-3) 3 draws.spread)) (uniform 10 100 draws.qty)

variable (bbo : BBO) (history : List ℤ)

/-- `midPrice`, or another price where that is 0. -/
def midPrice (other : ℤ) : ℤ :=
  let mid := (bbo.bestBid + bbo.bestAsk).tdiv 2
  if mid = 0 then other else mid

def strategyMomentum : NewOrderEvent :=
  if history.length < 3 then submitOrder clOrdId member symIdx draws
  else
    let recent := history.getLastD 0
    let older := history.getD (history.length - 3) 0
    limitOrder clOrdId member symIdx (if older < recent then .buy else .sell)
      (offsetPrice (midPrice bbo recent) (uniform (-2) 2 draws.spread)) (uniform 10 50 draws.qty)

def strategyMeanReversion : NewOrderEvent :=
  if history.length < 5 then submitOrder clOrdId member symIdx draws
  else
    let mean := history.sum.tdiv history.length
    let current := history.getLastD 0
    limitOrder clOrdId member symIdx (if mean < current then .sell else .buy) mean
      (uniform 10 50 draws.qty)

def strategyRandom : NewOrderEvent :=
  limitOrder clOrdId member symIdx (randomSide draws)
    (offsetPrice (midPrice bbo (referencePrice symIdx)) (uniform (-5) 5 draws.spread))
    (uniform 5 100 draws.qty)

end

/-- An order that is pushed, and the best prices that it is priced from, if it is by the momentum or
the random strategy. -/
structure Pushed where
  event : NewOrderEvent
  bbo : Option BBO
deriving DecidableEq

/-- The symbol that is drawn. -/
def symbol (draws : Draws) : ℕ :=
  t.symbols.getD (uniform 0 (t.symbols.length - 1) draws.symbol).toNat 0

/-- The best prices of a symbol, if there are any. -/
def market (symIdx : ℕ) : Option BBO :=
  (t.bbos.lookup symIdx).filter fun bbo => ¬(bbo.bestBid = 0 ∧ bbo.bestAsk = 0)

/-- What a member pushes when it is its turn. -/
def trade (member : AITraderMember) (draws : Draws) : Pushed :=
  let symIdx := t.symbol draws
  match t.market symIdx with
  | none => ⟨submitOrder t.nextClOrdId member symIdx draws, none⟩
  | some bbo =>
    let history := t.history symIdx
    match member.strategy with
    | .momentum =>
      ⟨strategyMomentum t.nextClOrdId member symIdx draws bbo history,
        if history.length < 3 then none else some bbo⟩
    | .meanReversion => ⟨strategyMeanReversion t.nextClOrdId member symIdx draws history, none⟩
    | .random => ⟨strategyRandom t.nextClOrdId member symIdx draws bbo, some bbo⟩

inductive Input where
  | bookUpdate (event : BookUpdateEvent)
  | trade (trade : Trade)
  | turn (member : AITraderMember) (draws : Draws)

def step : Input → AITraderActor × List Pushed
  | .bookUpdate event => (t.onBookUpdate event, [])
  | .trade trade => (t.onTrade trade, [])
  | .turn member draws =>
    if t.symbols = [] then (t, [])
    else ({ t with nextClOrdId := t.nextClOrdId + 1 }, [t.trade member draws])

end AITraderActor

/-! ### Near the market -/

namespace BBO

/-- The best prices that there are. -/
def prices (bbo : BBO) : List ℤ := [bbo.bestBid, bbo.bestAsk].filter (· ≠ 0)

/-- There is a best price, and best prices are positive and not too large. -/
structure Sane (bbo : BBO) : Prop where
  nonempty : bbo.prices ≠ []
  positive : ∀ price ∈ bbo.prices, 0 < price ∧ price < 2 ^ 62

/-- The price is positive and within five ticks of the best prices or what is between them. -/
structure Near (bbo : BBO) (price : ℤ) : Prop where
  positive : 0 < price
  lower : ∃ lo ∈ bbo.prices, lo - 5 * AITraderActor.tick ≤ price
  upper : ∃ hi ∈ bbo.prices, price ≤ hi + 5 * AITraderActor.tick

/-- What it takes to end near the market: with two best prices, that their middle and the offset
make a positive price, or that one is at least 95 ticks. With one of more than 1, that half of it
and the offset do, and that the other half is at most the offset and five ticks. With 1, whose half
is 0, that the other price and the offset are at most 1 and five ticks. -/
def Fair (bbo : BBO) (other ticks : ℤ) : Prop :=
  if bbo.bestBid ≠ 0 ∧ bbo.bestAsk ≠ 0 then
    0 < (bbo.bestBid + bbo.bestAsk) / 2 + ticks * AITraderActor.tick ∨
      95 * AITraderActor.tick ≤ max bbo.bestBid bbo.bestAsk
  else
    let best := bbo.bestBid + bbo.bestAsk
    if best = 1 then
      0 < other + ticks * AITraderActor.tick ∧
        other + ticks * AITraderActor.tick ≤ 1 + 5 * AITraderActor.tick
    else
      0 < best / 2 + ticks * AITraderActor.tick ∧
        best - best / 2 ≤ ticks * AITraderActor.tick + 5 * AITraderActor.tick

end BBO

namespace AITraderActor

/-- The order is near the market if it is priced from it, and that is sane. -/
def Pushed.Near (pushed : Pushed) : Prop :=
  ∀ bbo ∈ pushed.bbo, bbo.Sane → bbo.Near pushed.event.price

/-- An order that is about to be priced from sane best prices will be near them. -/
def Fair (t : AITraderActor) : Input → Prop
  | .turn member draws => t.symbols ≠ [] → ∀ bbo ∈ t.market (t.symbol draws), bbo.Sane →
    match member.strategy with
    | .momentum => 3 ≤ (t.history (t.symbol draws)).length →
      bbo.Fair ((t.history (t.symbol draws)).getLastD 0) (uniform (-2) 2 draws.spread)
    | .meanReversion => True
    | .random => bbo.Fair (referencePrice (t.symbol draws)) (uniform (-5) 5 draws.spread)
  | _ => True

variable {t : AITraderActor} {bbo : BBO} {other ticks price : ℤ}

/-! ### One price -/

lemma tick_eq : tick = 1000000 := rfl

lemma mem_prices : price ∈ bbo.prices ↔
    price ≠ 0 ∧ (price = bbo.bestBid ∨ price = bbo.bestAsk) := by
  rw [BBO.prices, List.mem_filter, decide_eq_true_eq, List.mem_cons, List.mem_singleton, and_comm]

lemma near_iff : bbo.Near price ↔ 0 < price ∧
    (bbo.bestBid ≠ 0 ∧ bbo.bestBid - 5000000 ≤ price ∨
      bbo.bestAsk ≠ 0 ∧ bbo.bestAsk - 5000000 ≤ price) ∧
    (bbo.bestBid ≠ 0 ∧ price ≤ bbo.bestBid + 5000000 ∨
      bbo.bestAsk ≠ 0 ∧ price ≤ bbo.bestAsk + 5000000) := by
  constructor
  · rintro ⟨hpos, ⟨lo, hlo, hle⟩, ⟨hi, hhi, hge⟩⟩
    rw [mem_prices] at hlo hhi
    rw [tick_eq] at hle hge
    refine ⟨hpos, ?_, ?_⟩
    · rcases hlo with ⟨hne, rfl | rfl⟩
      · exact Or.inl ⟨hne, hle⟩
      · exact Or.inr ⟨hne, hle⟩
    · rcases hhi with ⟨hne, rfl | rfl⟩
      · exact Or.inl ⟨hne, hge⟩
      · exact Or.inr ⟨hne, hge⟩
  · rintro ⟨hpos, hlo, hhi⟩
    refine ⟨hpos, ?_, ?_⟩
    · rcases hlo with ⟨hne, hle⟩ | ⟨hne, hle⟩
      · exact ⟨_, mem_prices.mpr ⟨hne, Or.inl rfl⟩, hle⟩
      · exact ⟨_, mem_prices.mpr ⟨hne, Or.inr rfl⟩, hle⟩
    · rcases hhi with ⟨hne, hge⟩ | ⟨hne, hge⟩
      · exact ⟨_, mem_prices.mpr ⟨hne, Or.inl rfl⟩, hge⟩
      · exact ⟨_, mem_prices.mpr ⟨hne, Or.inr rfl⟩, hge⟩

lemma nonneg_of_sane (h : bbo.Sane) :
    0 ≤ bbo.bestBid ∧ 0 ≤ bbo.bestAsk ∧ 0 < bbo.bestBid + bbo.bestAsk := by
  have hnonneg : ∀ best, best = bbo.bestBid ∨ best = bbo.bestAsk → 0 ≤ best := by
    intro best hbest
    by_cases hzero : best = 0
    · exact hzero.ge
    · exact (h.positive best (mem_prices.mpr ⟨hzero, hbest⟩)).1.le
  have hbid := hnonneg _ (Or.inl rfl)
  have hask := hnonneg _ (Or.inr rfl)
  obtain ⟨best, hbest⟩ := List.exists_mem_of_ne_nil _ h.nonempty
  have hpos := (h.positive best hbest).1
  refine ⟨hbid, hask, ?_⟩
  rcases (mem_prices.mp hbest).2 with rfl | rfl
  · exact Int.add_pos_of_pos_of_nonneg hpos hask
  · exact Int.add_pos_of_nonneg_of_pos hbid hpos

/-- The price of the momentum and the random strategy. -/
lemma near_offsetPrice_iff (h : bbo.Sane) (hlo : -5 ≤ ticks) (hhi : ticks ≤ 5) :
    bbo.Near (offsetPrice (midPrice bbo other) ticks) ↔ bbo.Fair other ticks := by
  obtain ⟨hbid, hask, hpos⟩ := nonneg_of_sane h
  have hmid : (bbo.bestBid + bbo.bestAsk).tdiv 2 = (bbo.bestBid + bbo.bestAsk) / 2 :=
    Int.tdiv_eq_ediv_of_nonneg hpos.le
  rw [near_iff, offsetPrice, midPrice, hmid, BBO.Fair, tick_eq, priceScale]
  -- the half is 0 exactly for a single price of 1
  dsimp only
  split_ifs <;> omega

/-! ### One turn -/

lemma near_none (event : NewOrderEvent) : Pushed.Near ⟨event, none⟩ := by
  rintro bbo ⟨⟩

lemma near_some {event : NewOrderEvent} :
    Pushed.Near ⟨event, some bbo⟩ ↔ (bbo.Sane → bbo.Near event.price) := by
  constructor
  · intro h
    exact h bbo rfl
  · rintro h bbo ⟨⟩
    exact h

/-- A member pushes an order near the market exactly if it will be. -/
lemma near_trade_iff (t : AITraderActor) (member : AITraderMember) (draws : Draws) :
    (t.trade member draws).Near ↔ ∀ bbo ∈ t.market (t.symbol draws), bbo.Sane →
      match member.strategy with
      | .momentum => 3 ≤ (t.history (t.symbol draws)).length →
        bbo.Fair ((t.history (t.symbol draws)).getLastD 0) (uniform (-2) 2 draws.spread)
      | .meanReversion => True
      | .random => bbo.Fair (referencePrice (t.symbol draws)) (uniform (-5) 5 draws.spread) := by
  rw [trade]
  cases hmarket : t.market (t.symbol draws) with
  | none => exact iff_of_true (near_none _) (by simp)
  | some bbo =>
    simp only [Option.mem_some_iff, forall_eq']
    cases member.strategy with
    | momentum =>
      by_cases hlen : (t.history (t.symbol draws)).length < 3
      · simp only [if_pos hlen]
        exact iff_of_true (near_none _) fun _ h => absurd hlen (by omega)
      · simp only [if_neg hlen, near_some, strategyMomentum]
        apply forall_congr'
        intro hsane
        obtain ⟨hlo, hhi⟩ := uniform_mem (-2) 2 (by decide) draws.spread
        rw [limitOrder, near_offsetPrice_iff hsane (by omega) (by omega)]
        exact ⟨fun h _ => h, fun h => h (by omega)⟩
    | meanReversion => exact iff_of_true (near_none _) fun _ => trivial
    | random =>
      rw [near_some]
      apply forall_congr'
      intro hsane
      obtain ⟨hlo, hhi⟩ := uniform_mem (-5) 5 (by decide) draws.spread
      exact near_offsetPrice_iff hsane hlo hhi

lemma near_step_iff (t : AITraderActor) (input : Input) :
    (∀ pushed ∈ (t.step input).2, pushed.Near) ↔ t.Fair input := by
  cases input with
  | bookUpdate event => simp [step, Fair]
  | trade trade => simp [step, Fair]
  | turn member draws =>
    rw [step]
    split_ifs with hsymbols
    · simp [Fair, hsymbols]
    · rw [List.forall_mem_singleton, near_trade_iff, Fair]
      exact ⟨fun h _ => h, fun h => h hsymbols⟩

/-! ### Runs -/

/-- In every run, all orders that the momentum and the random strategy price from the market are
near it exactly if all turns are fair. -/
theorem run_near_iff (symbols : List ℕ) (inputs : List Input) :
    (∀ pushed ∈ (Machine.run step { symbols } inputs).2, pushed.Near) ↔
      Machine.Along step Fair { symbols } inputs := by
  generalize ({ symbols } : AITraderActor) = t
  induction inputs generalizing t with
  | nil => simp
  | cons input inputs ih =>
    rw [Machine.run_cons, List.forall_mem_append, near_step_iff, ih, Machine.along_cons]

/-- The book of AAPL has a bid at 100 and no ask, and it is the turn of MBR03. -/
def oneSided : List Input :=
  [.bookUpdate { symbolIdx := 1, bids := [⟨100 * priceScale, 10⟩], asks := [] },
    .turn { memberId := 3, sessionId := 202, strategy := .random } ⟨0, 1, 5, 0⟩]

/-- The order is at 50. -/
theorem not_near : (Machine.run step { symbols := [1] } oneSided).2.map (fun pushed =>
      pushed.event.price) = [50 * priceScale] ∧
    ¬∀ pushed ∈ (Machine.run step { symbols := [1] } oneSided).2, pushed.Near := by
  have hrun : (Machine.run step { symbols := [1] } oneSided).2
      = [⟨limitOrder 50000 { memberId := 3, sessionId := 202, strategy := .random } 1 .buy
        (50 * priceScale) 5, some { bestBid := 100 * priceScale }⟩] := by decide
  rw [hrun]
  refine ⟨rfl, fun h => ?_⟩
  have hsane : BBO.Sane { bestBid := 100 * priceScale } := ⟨by decide, by decide⟩
  have hnear := h _ List.mem_cons_self _ rfl hsane
  rw [near_iff] at hnear
  exact absurd hnear (by decide)

end AITraderActor

end EuNEx
