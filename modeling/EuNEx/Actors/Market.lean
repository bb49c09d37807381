import EuNEx.Actors.Program
import Mathlib.Algebra.Order.BigOperators.Group.List

/-!
# The market that the program keeps

What becomes of the orders of the program. The AI trader knows of no market, so all its orders are
within three ticks of a fixed price, and the seed orders are fifty ticks and more away from it: they
never trade. They keep both sides of every book filled, so that market data never goes stale, and
what the clearing house clears are trades between its own members.
-/

namespace EuNEx

open Random (uniform uniform_mem)

namespace Program

variable {s : ℕ} {events : List NewOrderEvent} {event : NewOrderEvent}

/-! ### The orders of a symbol -/

/-- The orders for a symbol, in the order in which the gateway has been sent them. -/
def ordersFor (s : ℕ) (events : List NewOrderEvent) : List NewOrderEvent :=
  events.filter fun event => event.symbolIdx = s

/-- The order that the matching core makes of an event that has gone through the gateway. -/
def received (event : NewOrderEvent) : Order := { event with stopPrice := 0 : NewOrderEvent }.order

lemma enterOrder_of_quoted {a : MECoreActor} {hist : List BookEvent} {orders : List Order}
    {order : Order} (h : (a.book.newOrder order).book.Quoted hist orders) :
    a.enterOrder order = (a.book.newOrder order).toOutcome := by
  rcases a.enterOrder_cases order with ⟨⟨hpos, -⟩, -⟩ | ⟨-, heq⟩
  · rw [Book.stopOrderCount, h.stopOrders] at hpos
    cases hpos
  · exact heq

/-- The book of a symbol has been sent the orders for the symbol, and nothing else. -/
theorem alone_quoted (s : ℕ) (hday : ∀ event ∈ events, (received event).IsDayLimit) :
    ∃ hist, (alone s events).1.core.book.Quoted hist ((ordersFor s events).map received) ∧
      marketTrades (alone s events).2 = trades hist := by
  induction events using List.reverseRecOn with
  | nil => exact ⟨[], .new s, rfl⟩
  | append_singleton events event ih =>
    obtain ⟨hist, hquoted, htrades⟩ := ih fun e he => hday e (List.mem_append_left _ he)
    by_cases hs : event.symbolIdx = s
    · have hnew := hquoted.newOrder (hday event (by simp))
      have henter := enterOrder_of_quoted (a := (alone s events).1.core) hnew
      have horders : (ordersFor s (events ++ [event])).map received
          = (ordersFor s events).map received ++ [received event] := by
        simp [ordersFor, List.filter_append, hs]
      rw [alone_snoc_self hs, horders]
      refine ⟨hist ++ ((alone s events).1.core.book.newOrder (received event)).log, ?_, ?_⟩
      · show ((alone s events).1.core.enterOrder (received event)).book.Quoted _ _
        rw [henter]
        exact hnew
      · rw [marketTrades_append, htrades, trades_append]
        congr 1
        refine (congrArg marketTrades (MECoreActor.outputs_newOrder _)).trans ?_
        rw [marketTrades_append, MECoreActor.marketTrades_callback]
        show trades ((alone s events).1.core.enterOrder (received event)).log ++ [] = _
        rw [List.append_nil, henter]
    · have horders : ordersFor s (events ++ [event]) = ordersFor s events := by
        simp [ordersFor, List.filter_append, hs]
      rw [alone_snoc_of_ne hs, horders]
      exact ⟨hist, hquoted, htrades⟩

/-! ### Prices -/

open AITraderActor (referencePrice tick)

/-- Within three ticks of the reference price of the symbol. -/
def Near (s : ℕ) (price : ℤ) : Prop :=
  referencePrice s - 3 * tick ≤ price ∧ price ≤ referencePrice s + 3 * tick

/-- Fifty ticks and more away from the reference price of the symbol, on the own side of it. -/
def Away (event : NewOrderEvent) : Prop :=
  match event.side with
  | .buy => event.price ≤ referencePrice event.symbolIdx - 50 * tick
  | .sell => referencePrice event.symbolIdx + 50 * tick ≤ event.price

instance (event : NewOrderEvent) : Decidable (Away event) := by
  unfold Away
  split <;> infer_instance

/-- What all orders of the program have in common. -/
structure Ordinary (event : NewOrderEvent) : Prop where
  ordType : event.ordType = .limit
  tif : event.tif = .day
  session : 200 ≤ event.sessionId ∧ event.sessionId < 210
  quantity : 0 < event.quantity ∧ event.quantity ≤ 200
  price : 0 < event.price

lemma seedEvents_ordinary (h : event ∈ seedEvents) : Ordinary event := by
  have hall : ∀ event ∈ seedEvents, event.ordType = .limit ∧ event.tif = .day ∧
      (200 ≤ event.sessionId ∧ event.sessionId < 210) ∧
      (0 < event.quantity ∧ event.quantity ≤ 200) ∧ 0 < event.price := by decide +kernel
  obtain ⟨hord, htif, hsession, hqty, hprice⟩ := hall event h
  exact ⟨hord, htif, hsession, hqty, hprice⟩

lemma seedEvents_away : ∀ event ∈ seedEvents, Away event := by decide +kernel

lemma referencePrice_pos (s : ℕ) : 100 * priceScale ≤ referencePrice s := by
  unfold referencePrice
  split <;> decide

lemma IsFallback.near (h : IsFallback event) : Near event.symbolIdx event.price := by
  obtain ⟨member, -, s, -, clOrdId, draws, rfl⟩ := h
  obtain ⟨hlo, hhi⟩ := uniform_mem (-3) 3 (by decide) draws.spread
  have href := referencePrice_pos s
  have htick : tick = 1000000 := rfl
  have hscale : priceScale = 100000000 := rfl
  show Near s (AITraderActor.offsetPrice (referencePrice s) (uniform (-3) 3 draws.spread))
  rw [AITraderActor.offsetPrice, if_neg (by rw [htick]; omega), Near, htick]
  omega

lemma IsFallback.ordinary (h : IsFallback event) : Ordinary event := by
  have hprice : 0 < event.price := by
    have hnear := h.near.1
    have href := referencePrice_pos event.symbolIdx
    have htick : tick = 1000000 := rfl
    have hscale : priceScale = 100000000 := rfl
    omega
  obtain ⟨member, hmember, s, -, clOrdId, draws, rfl⟩ := h
  obtain ⟨hlo, hhi⟩ := uniform_mem 10 100 (by decide) draws.qty
  obtain ⟨i, hi, rfl⟩ := List.mem_map.mp hmember
  have hi : i < 10 := List.mem_range.mp hi
  refine ⟨rfl, rfl, ⟨Nat.le_add_right 200 i, Nat.add_lt_add_left hi 200⟩, ?_, hprice⟩
  show 0 < (uniform 10 100 draws.qty).toNat ∧ (uniform 10 100 draws.qty).toNat ≤ 200
  omega

/-- An order that the gateway has been sent is a seed order, or one of the AI trader. -/
lemma Sent.cases {p : Program} (h : p.Sent events) (he : event ∈ events) :
    event ∈ seedEvents ∨ IsFallback event := by
  obtain ⟨turns, hsent, hturns, -⟩ := h.sent
  have hmem : event ∈ seedEvents ++ turns := hsent ▸ List.mem_append_left _ he
  exact (List.mem_append.mp hmem).imp_right (hturns event)

/-- The orders of the program, as far as the market is concerned. -/
structure Sourced (event : NewOrderEvent) : Prop where
  ordinary : Ordinary event
  price : Away event ∨ Near event.symbolIdx event.price

lemma Sent.sourced {p : Program} (h : p.Sent events) (he : event ∈ events) : Sourced event := by
  rcases h.cases he with hseed | hturn
  · exact ⟨seedEvents_ordinary hseed, Or.inl (seedEvents_away event hseed)⟩
  · exact ⟨hturn.ordinary, Or.inr hturn.near⟩

/-- Where prices cross, neither order is away from the reference price. -/
lemma near_of_crossing {buyer seller : NewOrderEvent} {price : ℤ} (hbuyer : Sourced buyer)
    (hseller : Sourced seller) (hbuy : buyer.side = .buy) (hsell : seller.side = .sell)
    (hsymbol : buyer.symbolIdx = s) (hsymbol' : seller.symbolIdx = s)
    (hlo : seller.price ≤ price) (hhi : price ≤ buyer.price) :
    Near s price ∧ ¬Away buyer ∧ ¬Away seller := by
  have htick : tick = 1000000 := rfl
  have haway : Away buyer ↔ buyer.price ≤ referencePrice s - 50 * tick := by
    rw [Away, hbuy, hsymbol]
  have haway' : Away seller ↔ referencePrice s + 50 * tick ≤ seller.price := by
    rw [Away, hsell, hsymbol']
  have hnear := hbuyer.price
  have hnear' := hseller.price
  rw [haway, hsymbol, Near] at hnear
  rw [haway', hsymbol', Near] at hnear'
  rw [haway, haway', Near]
  omega

/-- The parties of a trade of a symbol, and its terms. -/
structure Terms (s : ℕ) (orders : List NewOrderEvent) (t : Trade) : Prop where
  price : Near s t.price
  buySession : 200 ≤ t.buySessionId ∧ t.buySessionId < 210
  sellSession : 200 ≤ t.sellSessionId ∧ t.sellSessionId < 210
  quantity : t.quantity ≤ 200
  near : ∀ k event, orders[k]? = some event → Away event →
    t.buyOrderId ≠ k + 1 ∧ t.sellOrderId ≠ k + 1

section

variable {hist : List BookEvent} {b : Book}

lemma mem_ordersFor {k : ℕ} (hk : (ordersFor s events)[k]? = some event) :
    event ∈ events ∧ event.symbolIdx = s := by
  have hmem := List.mem_of_getElem? hk
  rw [ordersFor, List.mem_filter] at hmem
  exact ⟨hmem.1, by simpa using hmem.2⟩

/-- What an order trades is part of what it has traded. -/
lemma quantity_le_traded {t : Trade} {id : ℕ} (ht : .trade t ∈ hist) (hid : t.buyOrderId = id) :
    t.quantity ≤ traded hist id := by
  have hmem : t.quantity ∈ hist.map (BookEvent.tradedQty id) :=
    List.mem_map.mpr ⟨.trade t, ht, if_pos (Or.inl hid)⟩
  exact List.le_sum_of_mem hmem

/-- Trades are between orders of the AI trader. -/
lemma terms_of_quoted (hquoted : b.Quoted hist ((ordersFor s events).map received))
    (hsourced : ∀ event ∈ events, Sourced event) {t : Trade} (ht : .trade t ∈ hist) :
    Terms s (ordersFor s events) t := by
  obtain ⟨i, o, j, o', hi, hj, -, hterms⟩ := hquoted.parties ht
  rw [List.getElem?_map, Option.map_eq_some_iff] at hi hj
  obtain ⟨buyer, hi, rfl⟩ := hi
  obtain ⟨seller, hj, rfl⟩ := hj
  obtain ⟨hbuyer, hsymbol⟩ := mem_ordersFor hi
  obtain ⟨hseller, hsymbol'⟩ := mem_ordersFor hj
  have hb := hsourced buyer hbuyer
  have hs := hsourced seller hseller
  obtain ⟨hprice, haway, haway'⟩ := near_of_crossing hb hs hterms.buySide hterms.sellSide hsymbol
    hsymbol' (hterms.sellLimit hs.ordinary.ordType) (hterms.buyLimit hb.ordinary.ordType)
  refine ⟨hprice, ?_, ?_, ?_, fun k event hk haw => ⟨fun hid => ?_, fun hid => ?_⟩⟩
  · rw [hterms.buySessionId]
    exact hb.ordinary.session
  · rw [hterms.sellSessionId]
    exact hs.ordinary.session
  · have hbuyer : ((ordersFor s events).map received)[i]? = some (received buyer) := by
      rw [List.getElem?_map, hi, Option.map_some]
    have hqty : buyer.quantity = traded hist (i + 1) + b.openQty (i + 1) :=
      hquoted.quantity_eq hbuyer
    have hle : t.quantity ≤ traded hist (i + 1) := quantity_le_traded ht hterms.buyOrderId
    have := hb.ordinary.quantity.2
    omega
  · obtain rfl : i = k := Nat.succ.inj (hterms.buyOrderId.symm.trans hid)
    cases hi.symm.trans hk
    exact haway haw
  · obtain rfl : j = k := Nat.succ.inj (hterms.sellOrderId.symm.trans hid)
    cases hj.symm.trans hk
    exact haway' haw

end

/-! ### An orderly market -/

/-- The quantity that an order of a symbol has traded. -/
def tradedQty (s id : ℕ) (trades : List Trade) : ℕ :=
  ((trades.filter fun t => t.symbolIdx = s).map fun t =>
    if t.buyOrderId = id ∨ t.sellOrderId = id then t.quantity else 0).sum

lemma traded_eq_sum (hist : List BookEvent) (id : ℕ) : traded hist id
    = ((trades hist).map fun t =>
        if t.buyOrderId = id ∨ t.sellOrderId = id then t.quantity else 0).sum := by
  induction hist with
  | nil => rfl
  | cons ev hist ih =>
    rw [← List.singleton_append, traded_append, trades_append, List.map_append, List.sum_append, ih]
    congr 1
    cases ev with
    | trade t => rfl
    | _ => rfl

/-- The state of the market: books are not crossed, what an order has not traded is open, no seed
order has traded, trades are near the reference price and between members of the AI trader, and
once the seed orders are in, market data shows the best prices as they are. -/
structure Orderly (p : Program) (events : List NewOrderEvent) (trades : List Trade) : Prop where
  uncrossed : ∀ s, ∀ core ∈ p.exchange.books.lookup s, core.book.Uncrossed
  accounted : ∀ s, ∀ core ∈ p.exchange.books.lookup s, ∀ k event,
    (ordersFor s events)[k]? = some event →
      event.quantity = tradedQty s (k + 1) trades + core.book.openQty (k + 1)
  seeds : ∀ s, ∀ core ∈ p.exchange.books.lookup s, ∀ k, ∀ event ∈ seedEvents,
    (ordersFor s events)[k]? = some event → core.book.openQty (k + 1) = event.quantity
  trades : ∀ t ∈ trades, Near t.symbolIdx t.price ∧
    (200 ≤ t.buySessionId ∧ t.buySessionId < 210) ∧
    (200 ≤ t.sellSessionId ∧ t.sellSessionId < 210) ∧ t.quantity ≤ 200
  shown : p.seeds = [] → ∀ s, ∀ core ∈ p.exchange.books.lookup s,
    (p.exchange.mdg.snapshot s).bestBid = core.book.bestBid ∧
      (p.exchange.mdg.snapshot s).bestAsk = core.book.bestAsk ∧
      0 < core.book.bestBid ∧ core.book.bestBid < core.book.bestAsk

section

variable {hist : List BookEvent} {b : Book}

/-- A side with an open order has a level. -/
lemma entries_ne_nil (hquoted : b.Quoted hist ((ordersFor s events).map received)) {k : ℕ}
    (hk : (ordersFor s events)[k]? = some event) (hopen : 0 < b.openQty (k + 1)) :
    (b.levels event.side).entries ≠ [] := by
  have hsum : b.openQty (k + 1) = ((b.resting .buy ++ b.resting .sell).map fun o =>
      if o.orderId = k + 1 then o.remainingQty else 0).sum := by
    rw [Book.openQty, hquoted.stopOrders]
    rfl
  obtain ⟨o, ho, hid⟩ : ∃ o ∈ b.resting .buy ++ b.resting .sell, o.orderId = k + 1 := by
    by_contra hnone
    push Not at hnone
    have hzero : b.openQty (k + 1) = 0 := by
      rw [hsum]
      refine List.sum_eq_zero fun n hn => ?_
      obtain ⟨o, ho, rfl⟩ := List.mem_map.mp hn
      exact if_neg (hnone o ho)
    omega
  have hside : ∀ side, o ∈ b.resting side → side = event.side := by
    intro side ho
    obtain ⟨k', order, hk', htracks⟩ := hquoted.resting ho
    obtain rfl : k' = k := Nat.succ.inj (htracks.orderId.symm.trans hid)
    rw [List.getElem?_map, hk, Option.map_some, Option.some.injEq] at hk'
    rw [← (hquoted.sound.shape.levels side).side ho, htracks.eq, ← hk']
    rfl
  intro hnil
  have hempty : ∀ side, o ∈ b.resting side → False := by
    intro side ho
    obtain rfl := hside side ho
    rw [Book.resting, OrdMap.elems, hnil] at ho
    cases ho
  rcases List.mem_append.mp ho with ho | ho
  · exact hempty .buy ho
  · exact hempty .sell ho

/-- The prices of resting orders are positive. -/
lemma key_pos (hquoted : b.Quoted hist ((ordersFor s events).map received))
    (hsourced : ∀ event ∈ events, Sourced event) {side : Side} {price : ℤ}
    (hprice : price ∈ (b.levels side).keys) : 0 < price := by
  obtain ⟨o, ho, rfl⟩ := (hquoted.sound.shape.levels side).exists_of_mem_keys hprice
  obtain ⟨k, order, hk, htracks⟩ := hquoted.resting ho
  rw [List.getElem?_map, Option.map_eq_some_iff] at hk
  obtain ⟨event, hk, rfl⟩ := hk
  rw [htracks.price]
  exact (hsourced event (mem_ordersFor hk).1).ordinary.price

end

/-- Market data is up to date on a side that has a level. -/
lemma alone_quote (s : ℕ) (events : List NewOrderEvent) (side : Side)
    (hne : ((alone s events).1.core.book.levels side).entries ≠ []) :
    ((alone s events).1.mdg.quote s side).1 = (alone s events).1.core.book.best side := by
  induction events using List.reverseRecOn with
  | nil => exact absurd (by cases side <;> rfl) hne
  | append_singleton events event ih =>
    by_cases hs : event.symbolIdx = s
    · rw [alone_snoc_self hs] at hne ⊢
      have hok := alone_ok s events
      have hstep := MarketFeed.quote_step hok.fed (OEGActor.forward (.newOrder event)) side
      rw [hok.symbolIdx] at hstep
      rcases hstep with ⟨hbook, hmdg⟩ | ⟨-, hquote⟩
      · have hbook' : ((alone s events).1.step (OEGActor.forward (.newOrder event))).1.core.book
            = (alone s events).1.core.book := hbook
        rw [hbook'] at hne ⊢
        rw [hmdg]
        exact ih hne
      · rw [hquote]
        exact congrArg Prod.fst (if_neg hne)
    · rw [alone_snoc_of_ne hs] at hne ⊢
      exact ih hne

lemma exists_seed : ∀ s ∈ Exchange.allSymbols, ∀ side : Side,
    ∃ event ∈ seedEvents, event.symbolIdx = s ∧ event.side = side := by
  intro s hs side
  cases side <;> revert s <;> decide

/-- Whenever the program goes on, the market is orderly. -/
theorem Running.orderly {p : Program} (h : p.Running events) :
    ∃ trades, p.Wired events trades ∧ p.Orderly events trades := by
  obtain ⟨trades, hw⟩ := h.wired
  have hsourced : ∀ event ∈ events, Sourced event := fun event he => h.sent.sourced he
  have hday : ∀ event ∈ events, (received event).IsDayLimit := fun event he =>
    ⟨(hsourced event he).ordinary.ordType, (hsourced event he).ordinary.tif⟩
  -- the core of a symbol is the one that the symbol has alone
  have hcore : ∀ s, ∀ core ∈ p.exchange.books.lookup s,
      s ∈ Exchange.allSymbols ∧ core = (alone s events).1.core := by
    intro s core hcore
    rw [hw.books s] at hcore
    split at hcore
    · rename_i hs
      cases hcore
      exact ⟨hs, rfl⟩
    · cases hcore
  have hterms : ∀ s hist, (alone s events).1.core.book.Quoted hist
      ((ordersFor s events).map received) → ∀ t ∈ EuNEx.trades hist,
        Terms s (ordersFor s events) t :=
    fun s hist hquoted t ht => terms_of_quoted hquoted hsourced (mem_trades.mp ht)
  -- the quantity that an order has traded, and the one it has open
  have hqty : ∀ s ∈ Exchange.allSymbols, ∀ k event, (ordersFor s events)[k]? = some event →
      event.quantity = tradedQty s (k + 1) trades
        + (alone s events).1.core.book.openQty (k + 1) ∧
      (Away event → (alone s events).1.core.book.openQty (k + 1) = event.quantity) := by
    intro s hs k event hk
    obtain ⟨hist, hquoted, htrades⟩ := alone_quoted s hday
    have hreceived : ((ordersFor s events).map received)[k]? = some (received event) := by
      rw [List.getElem?_map, hk, Option.map_some]
    have heq : event.quantity = traded hist (k + 1)
        + (alone s events).1.core.book.openQty (k + 1) := hquoted.quantity_eq hreceived
    have htraded : traded hist (k + 1) = tradedQty s (k + 1) trades := by
      rw [traded_eq_sum, ← htrades, ← hw.traded s hs]
      rfl
    refine ⟨by rw [← htraded, ← heq], fun haway => ?_⟩
    have hzero : traded hist (k + 1) = 0 := by
      refine traded_eq_zero fun t ht => ?_
      obtain ⟨hbuy, hsell⟩ := (hterms s hist hquoted t (mem_trades.mpr ht)).near k event hk haway
      rintro (hid | hid)
      · exact hbuy hid
      · exact hsell hid
    omega
  refine ⟨trades, hw, ?_, ?_, ?_, ?_, ?_⟩
  · intro s core hmem
    obtain ⟨-, rfl⟩ := hcore s core hmem
    obtain ⟨hist, hquoted, -⟩ := alone_quoted s hday
    exact hquoted.continuous.uncrossed
  · intro s core hmem k event hk
    obtain ⟨hs, rfl⟩ := hcore s core hmem
    exact (hqty s hs k event hk).1
  · intro s core hmem k event hseed hk
    obtain ⟨hs, rfl⟩ := hcore s core hmem
    exact (hqty s hs k event hk).2 (seedEvents_away event hseed)
  · intro t ht
    obtain ⟨hist, hquoted, htrades⟩ := alone_quoted t.symbolIdx hday
    have hmem : t ∈ EuNEx.trades hist := by
      rw [← htrades, ← hw.traded _ (hw.symbols t ht)]
      exact List.mem_filter.mpr ⟨ht, decide_eq_true rfl⟩
    have ht' := hterms t.symbolIdx hist hquoted t hmem
    exact ⟨ht'.price, ht'.buySession, ht'.sellSession, ht'.quantity⟩
  · intro hseeds s core hmem
    obtain ⟨hs, rfl⟩ := hcore s core hmem
    obtain ⟨hist, hquoted, -⟩ := alone_quoted s hday
    -- a seed order is open on either side
    have hlevels : ∀ side, ((alone s events).1.core.book.levels side).entries ≠ [] := by
      intro side
      obtain ⟨turns, hsent, -⟩ := h.sent.sent
      obtain ⟨event, hseed, hsymbol, rfl⟩ := exists_seed s hs side
      have hevent : event ∈ ordersFor s events := by
        refine List.mem_filter.mpr ⟨?_, decide_eq_true hsymbol⟩
        rw [hseeds, List.append_nil] at hsent
        exact hsent ▸ List.mem_append_left _ hseed
      obtain ⟨k, hk⟩ := List.getElem?_of_mem hevent
      refine entries_ne_nil hquoted hk ?_
      rw [(hqty s hs k event hk).2 (seedEvents_away event hseed)]
      exact (seedEvents_ordinary hseed).quantity.1
    have hquote : ∀ side, (p.exchange.mdg.quote s side).1
        = (alone s events).1.core.book.best side := by
      intro side
      rw [← alone_quote s events side (hlevels side)]
      cases side <;> simp only [MDGActor.quote, hw.snapshots s hs]
    refine ⟨hquote .buy, hquote .sell, ?_, ?_⟩
    · apply key_pos hquoted hsourced
      obtain ⟨bid, hbid⟩ := Option.ne_none_iff_exists'.mp
        (mt List.head?_eq_none_iff.mp (hlevels .buy))
      have hbest : (alone s events).1.core.book.bestBid = bid.1 := by
        simp [Book.bestBid, show (alone s events).1.core.book.bids.first? = some bid from hbid]
      rw [hbest]
      exact List.mem_map_of_mem (List.mem_of_mem_head? hbid)
    · rcases Book.uncrossed_iff_best.mp hquoted.continuous.uncrossed with hnil | hnil | hlt
      · exact absurd hnil (hlevels .buy)
      · exact absurd hnil (hlevels .sell)
      · exact hlt

/-- In every run of the program, whatever FIX clients do, the market is orderly. -/
theorem run_orderly (px : PriceText) (inputs : List ProgramInput) :
    Machine.Throughout (Machine.recording (step px))
      (fun s => ∀ p, s.1 = some p → ∃ trades, p.Wired s.2 trades ∧ p.Orderly s.2 trades)
      (some main, []) inputs := by
  have hrunning := throughout_running px inputs
  exact hrunning.mono fun s hs p hp => (hs p hp).orderly

/-! ### The accounts -/

open ClearingHouseActor (memberIds BothMapped FitsInt64)
open Tally (balance)

/-- The sessions that the clearing house knows. -/
def sessions : Finmap fun _ : ℕ => ℕ := (ClearingHouseActor.mapped sessionPairs).sessionToMember

lemma sessions_lookup {id : ℕ} (hlo : 200 ≤ id) (hhi : id < 210) :
    ∃ member ∈ memberIds, sessions.lookup id = some member := by
  have hall : ∀ i < 10, i + 1 ∈ memberIds ∧ sessions.lookup (200 + i) = some (i + 1) := by decide
  obtain ⟨i, rfl⟩ := Nat.exists_eq_add_of_le hlo
  have hi := hall i (by omega)
  exact ⟨i + 1, hi.1, hi.2⟩

/-- A balance of bounded amounts. -/
lemma balance_bounds {post : Trade → ℤ} {trades : List Trade}
    (h : ∀ t ∈ trades, 0 ≤ post t ∧ post t ≤ 200) :
    0 ≤ balance post trades ∧ balance post trades ≤ 200 * trades.length := by
  induction trades with
  | nil => simp [balance]
  | cons t trades ih =>
    obtain ⟨hlo, hhi⟩ := ih fun t' ht' => h t' (List.mem_cons_of_mem _ ht')
    obtain ⟨hlo', hhi'⟩ := h t List.mem_cons_self
    simp only [balance, List.map_cons, List.sum_cons, List.length_cons] at hlo hhi ⊢
    push_cast
    omega

lemma fitsInt64_of_length {trades : List Trade} (hqty : ∀ t ∈ trades, t.quantity ≤ 200)
    (hlength : trades.length ≤ 2 ^ 55) : FitsInt64 sessions trades := by
  intro id s
  have hbought : 0 ≤ balance (boughtQty sessions id s) trades ∧
      balance (boughtQty sessions id s) trades ≤ 200 * trades.length := by
    apply balance_bounds
    intro t ht
    have := hqty t ht
    rw [boughtQty]
    split_ifs <;> omega
  have hsold : 0 ≤ balance (soldQty sessions id s) trades ∧
      balance (soldQty sessions id s) trades ≤ 200 * trades.length := by
    apply balance_bounds
    intro t ht
    have := hqty t ht
    rw [soldQty]
    split_ifs <;> omega
  rw [netQty]
  omega

/-- The trades of all symbols, counted by symbol. -/
lemma length_eq_sum {trades : List Trade}
    (hsymbols : ∀ t ∈ trades, t.symbolIdx ∈ Exchange.allSymbols) :
    (Exchange.allSymbols.map fun s => (trades.filter fun t => t.symbolIdx = s).length).sum
      = trades.length := by
  have hcount : ∀ s, (trades.filter fun t => t.symbolIdx = s).length
      = balance (fun t => if t.symbolIdx = s then 1 else 0) trades := by
    intro s
    induction trades with
    | nil => rfl
    | cons t trades ih =>
      have ih := ih fun t' ht' => hsymbols t' (List.mem_cons_of_mem _ ht')
      by_cases ht : t.symbolIdx = s <;>
        simp [ht, balance, ih, Nat.add_comm]
  simp only [hcount]
  rw [Tally.sum_balance (fun _ => 1) fun t ht =>
    Tally.sum_key (by decide) (hsymbols t ht) 1]
  simp [balance]

/-- The books of the clearing house, with money in exact numbers: it has moved what was traded
between its members and nothing else, so that positions and gains sum to nothing, and it has counted
the trades that market data has counted, in counters of type `int`. -/
structure Settled (p : Program) (trades : List Trade) : Prop where
  cleared : p.clearing.Cleared sessions trades
  pnl : (p.clearing.getLeaderboard.map LeaderboardEntry.pnl).sum = 0
  tradeCount : (p.clearing.members.map MemberState.tradeCount).sum
    = 2 * (Exchange.allSymbols.map fun s => (p.exchange.mdg.snapshot s).tradeCount).sum
  counters : ∀ m ∈ p.clearing.members, m.tradeCount < 2 ^ 31

theorem Running.settled {p : Program} (h : p.Running events) : ∃ trades, p.Wired events trades ∧
    (trades.length < 2 ^ 30 → p.Settled trades) := by
  obtain ⟨trades, hw, ho⟩ := h.orderly
  refine ⟨trades, hw, fun hlength => ?_⟩
  have haccounted : p.clearing.Accounted .int64 sessions trades := by
    rw [hw.clearing]
    exact ClearingHouseActor.accounted_run .int64 sessionPairs trades
  have hmapped : ∀ t ∈ trades, BothMapped sessions t := fun t ht =>
    ⟨sessions_lookup (ho.trades t ht).2.1.1 (ho.trades t ht).2.1.2,
      sessions_lookup (ho.trades t ht).2.2.1.1 (ho.trades t ht).2.2.1.2⟩
  have hcleared := haccounted.cleared hmapped
    (fitsInt64_of_length (fun t ht => (ho.trades t ht).2.2.2) (by omega))
  refine ⟨hcleared, ?_, ?_, fun m hm => ?_⟩
  · have hperm : (p.clearing.getLeaderboard.map LeaderboardEntry.pnl).sum
        = ((p.clearing.members.map MemberState.leaderboardEntry).map LeaderboardEntry.pnl).sum :=
      ((List.perm_insertionSort _ _).map _).sum_eq
    rw [hperm, List.map_map]
    have hinitial : ∀ m ∈ p.clearing.members,
        (LeaderboardEntry.pnl ∘ MemberState.leaderboardEntry) m
          = m.capital - ClearingHouseActor.initialCapital := fun m hm => by
      show m.capital - m.initialCapital = _
      rw [(haccounted.members m hm).initialCapital]
    rw [List.map_congr_left hinitial]
    have hsum : (p.clearing.members.map fun m => m.capital - ClearingHouseActor.initialCapital).sum
        + (p.clearing.members.map fun _ => ClearingHouseActor.initialCapital).sum
        = (p.clearing.members.map MemberState.capital).sum := by
      rw [← List.sum_map_add]
      simp only [sub_add_cancel]
    have hstart : (p.clearing.members.map fun _ => ClearingHouseActor.initialCapital)
        = ClearingHouseActor.initMembers.map MemberState.capital := by
      rw [haccounted.map_members (fun _ => ClearingHouseActor.initialCapital) fun _ _ => rfl]
      rfl
    rw [hcleared.totalCapital, hstart] at hsum
    simpa using hsum
  · rw [hcleared.tradeCount, ← length_eq_sum hw.symbols]
    congr 2
    apply List.map_congr_left
    intro s hs
    rw [hw.snapshots s hs, hw.traded s hs]
    have hok := alone_ok s events
    exact (hok.symbolIdx ▸ hok.fed.counts.tradeCount).symm
  · have hle : m.tradeCount ≤ (p.clearing.members.map MemberState.tradeCount).sum :=
      List.le_sum_of_mem (List.mem_map_of_mem hm)
    rw [hcleared.tradeCount] at hle
    omega

/-- In every run of the program with fewer than 2 ^ 30 trades, whatever FIX clients do, the accounts
are settled. -/
theorem run_clears (px : PriceText) (inputs : List ProgramInput) :
    Machine.Throughout (Machine.recording (step px))
      (fun s => ∀ p, s.1 = some p → ∃ trades, p.Wired s.2 trades ∧
        (trades.length < 2 ^ 30 → p.Settled trades))
      (some main, []) inputs :=
  (throughout_running px inputs).mono fun _ hs p hp => (hs p hp).settled

end Program

end EuNEx
