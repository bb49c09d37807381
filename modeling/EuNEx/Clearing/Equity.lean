import EuNEx.Clearing.Strategies
import Mathlib.Algebra.BigOperators.Group.Finset.Basic
import Mathlib.Data.Fintype.BigOperators
import Mathlib.Tactic.FieldSimp

/-!
# Equity

What the clearing house reports of its members: the statistics of the day, the value of what they
hold and the settlement at the end of the day. `record_trade` works out the gain of a sale and drops
it; the settlement takes the change of the capital instead. The two are compared over whole runs.
-/

namespace EuNEx.Clearing

open Finset (sum_congr)
open Tally (balance)

variable {M S D : Type*}

/-- A sale, with the row that it is taken from. -/
structure Sale (M S D : Type*) where
  trade : BookedTrade M S D ℚ
  row : Holding ℚ

namespace Sale

/-- `realized`. -/
def realized (sale : Sale M S D) : ℚ :=
  sale.trade.quantity * (sale.trade.price - sale.row.avgCost)

/-- The cost of what is sold beyond the row. -/
def unbacked (sale : Sale M S D) : ℚ :=
  (max 0 (sale.trade.quantity - sale.row.quantity) : ℤ) * sale.row.avgCost

end Sale

/-- A row of `ch_settlements`. -/
structure Settlement (M D : Type*) where
  memberId : M
  tradingDate : D
  openingCapital : ℚ
  closingCapital : ℚ
  realizedPnl : ℚ
  unrealizedPnl : ℚ
  obligationMet : Bool

/-- `CH_MEMBERS`, a dictionary: each member with its capital. -/
def ChMembers (M : Type*) := { members : List (M × ℚ) // (members.map Prod.fst).Nodup }

/-- `CH_OBLIGATION_MIN_SECURITIES`. -/
def obligationMinSecurities : ℤ := 20

namespace Database

variable (db : Database M S D ℚ) (memberId : M)

/-- `get_daily_stats`. -/
def getDailyStats (tradingDate : D) : DailyTrades :=
  (db.dailyTrades (memberId, tradingDate)).getD ⟨0, 0, 0⟩

section

variable [Fintype S] (lastPrice : S → Option ℚ)

/-- A sum over the rows of `get_holdings`. -/
def sumHoldings (f : S → Holding ℚ → ℚ) : ℚ :=
  ∑ symbol, (db.getHoldings memberId symbol).elim 0 (f symbol)

/-- What the holdings have cost. -/
def cost : ℚ := db.sumHoldings memberId fun _ row => row.quantity * row.avgCost

/-- `holdings_value`, before it is rounded. A symbol without a price counts at its cost. -/
def holdingsValue : ℚ :=
  db.sumHoldings memberId fun symbol row => row.quantity * (lastPrice symbol).getD row.avgCost

/-- `unrealized`. -/
def unrealized : ℚ :=
  db.sumHoldings memberId fun symbol row =>
    row.quantity * ((lastPrice symbol).getD row.avgCost - row.avgCost)

/-- `total_value` on the leaderboard. -/
def totalValue : Option ℚ :=
  (db.members memberId).map fun capital =>
    roundCents (capital + db.holdingsValue memberId lastPrice)

/-- `api_eod`: the settlements that it records, for those of the configured members that are in the
table. -/
def apiEod (chMembers : ChMembers M) (tradingDate : D) : List (Settlement M D) :=
  chMembers.1.filterMap fun (memberId, openingCapital) =>
    (db.members memberId).map fun capital =>
      { memberId, tradingDate, openingCapital
        closingCapital := capital
        realizedPnl := roundCents (capital - openingCapital)
        unrealizedPnl := roundCents (db.unrealized memberId lastPrice)
        obligationMet :=
          obligationMinSecurities ≤ (db.getDailyStats memberId tradingDate).totalSecurities }

end

end Database

/-- `record_trade`, and the sale if it is one with a row. -/
def Database.book [DecidableEq M] [DecidableEq S] [DecidableEq D] (db : Database M S D ℚ)
    (trade : BookedTrade M S D ℚ) : Database M S D ℚ × List (Sale M S D) :=
  (db.recordTrade trade, match trade.side with
    | .buy => []
    | .sell => ((db.holdings (trade.memberId, trade.symbol)).map (Sale.mk trade)).toList)

/-! ### What a trade does to the cost of the holdings -/

section

variable [DecidableEq M]

/-- The gains of a member. -/
def gains (memberId : M) (sales : List (Sale M S D)) : ℚ :=
  balance (fun sale => if sale.trade.memberId = memberId then sale.realized else 0) sales

/-- The cost of what a member has sold and did not have. -/
def unbacked (memberId : M) (sales : List (Sale M S D)) : ℚ :=
  balance (fun sale => if sale.trade.memberId = memberId then sale.unbacked else 0) sales

variable {memberId : M} {sales : List (Sale M S D)} {sale : Sale M S D}

/-- The sales of others do not count. -/
lemma gains_snoc_of_ne (h : sale.trade.memberId ≠ memberId) :
    gains memberId (sales ++ [sale]) + unbacked memberId (sales ++ [sale])
      = gains memberId sales + unbacked memberId sales := by
  simp [gains, unbacked, Tally.balance_snoc, h]

lemma gains_snoc_self (sales : List (Sale M S D)) (sale : Sale M S D) :
    gains sale.trade.memberId (sales ++ [sale])
      + unbacked sale.trade.memberId (sales ++ [sale])
    = gains sale.trade.memberId sales + unbacked sale.trade.memberId sales
      + sale.realized + sale.unbacked := by
  simp only [gains, unbacked, Tally.balance_snoc, if_true]
  ring

variable [DecidableEq D]

/-- What a member has bought or sold on a day. -/
def dayQuantity (memberId : M) (tradingDate : D) (side : Side)
    (tradeLog : List (BookedTrade M S D ℚ)) : ℤ :=
  balance (fun trade => if trade.memberId = memberId ∧ trade.tradingDate = tradingDate ∧
    trade.side = side then trade.quantity else 0) tradeLog

/-- The statistics of a day as the log has them. -/
def dayStats (memberId : M) (tradingDate : D) (tradeLog : List (BookedTrade M S D ℚ)) :
    DailyTrades where
  buyCount := dayQuantity memberId tradingDate .buy tradeLog
  sellCount := dayQuantity memberId tradingDate .sell tradeLog
  totalSecurities := dayQuantity memberId tradingDate .buy tradeLog
    + dayQuantity memberId tradingDate .sell tradeLog

variable {tradeLog : List (BookedTrade M S D ℚ)} {trade : BookedTrade M S D ℚ} {tradingDate : D}

lemma dayStats_snoc_self : dayStats trade.memberId trade.tradingDate (tradeLog ++ [trade]) =
    let stats := dayStats trade.memberId trade.tradingDate tradeLog
    { buyCount := stats.buyCount + trade.counts.buyCount
      sellCount := stats.sellCount + trade.counts.sellCount
      totalSecurities := stats.totalSecurities + trade.counts.totalSecurities } := by
  cases hside : trade.side with
  | buy =>
    simp [dayStats, dayQuantity, Tally.balance_snoc, BookedTrade.counts, hside, add_right_comm]
  | sell => simp [dayStats, dayQuantity, Tally.balance_snoc, BookedTrade.counts, hside, add_assoc]

lemma dayStats_snoc_of_ne
    (h : ¬(trade.memberId = memberId ∧ trade.tradingDate = tradingDate)) :
    dayStats memberId tradingDate (tradeLog ++ [trade])
      = dayStats memberId tradingDate tradeLog := by
  have hnot (side : Side) : ¬(trade.memberId = memberId ∧ trade.tradingDate = tradingDate ∧
      trade.side = side) := fun heq => h ⟨heq.1, heq.2.1⟩
  simp [dayStats, dayQuantity, Tally.balance_snoc, hnot]

end

namespace Database

lemma sum_of_ne [Fintype S] [DecidableEq S] {f f' : S → ℚ} {symbol : S}
    (h : ∀ s, s ≠ symbol → f' s = f s) : ∑ s, f' s = ∑ s, f s + (f' symbol - f symbol) := by
  have hdiff : ∑ s, (f' s - f s) = f' symbol - f symbol :=
    Fintype.sum_eq_single symbol fun s hs => sub_eq_zero.mpr (h s hs)
  rw [← hdiff, Finset.sum_sub_distrib]
  ring

/-- What the holding of a symbol has cost. -/
def costOf (db : Database M S D ℚ) (memberId : M) (symbol : S) : ℚ :=
  (db.getHoldings memberId symbol).elim 0 fun row => row.quantity * row.avgCost

lemma costOf_of_row {db : Database M S D ℚ} {memberId : M} {symbol : S} {row : Holding ℚ}
    (h : db.holdings (memberId, symbol) = some row) (hpos : 0 < row.quantity) :
    db.costOf memberId symbol = row.quantity * row.avgCost := by
  rw [costOf, getHoldings, h, Option.filter_some_pos (by simpa using hpos)]
  rfl

lemma costOf_of_none {db : Database M S D ℚ} {memberId : M} {symbol : S}
    (h : db.holdings (memberId, symbol) = none) : db.costOf memberId symbol = 0 := by
  rw [costOf, getHoldings, h]
  rfl

lemma cost_eq [Fintype S] (db : Database M S D ℚ) (memberId : M) :
    db.cost memberId = ∑ symbol, db.costOf memberId symbol := rfl

/-- The gain that is not realized is what the holdings are worth beyond their cost. -/
lemma unrealized_eq [Fintype S] (db : Database M S D ℚ) (memberId : M) (lastPrice : S → Option ℚ) :
    db.unrealized memberId lastPrice
      = db.holdingsValue memberId lastPrice - db.cost memberId := by
  rw [unrealized, holdingsValue, cost, sumHoldings, sumHoldings, sumHoldings,
    ← Finset.sum_sub_distrib]
  apply sum_congr rfl
  intro symbol _
  cases db.getHoldings memberId symbol with
  | none => simp
  | some row =>
    simp only [Option.elim_some]
    ring

/-- There are rows for what is held only, at an average cost within any bounds of the prices that
the member has paid for the symbol. -/
def Averaged (db : Database M S D ℚ) : Prop :=
  ∀ memberId symbol row, db.holdings (memberId, symbol) = some row → 0 < row.quantity ∧
    ∀ low high, (∀ trade ∈ db.tradeLog, trade.memberId = memberId → trade.symbol = symbol →
        trade.side = .buy → low ≤ trade.price ∧ trade.price ≤ high) →
      low ≤ row.avgCost ∧ row.avgCost ≤ high

/-- The mean of two prices lies within their bounds. -/
lemma mean_bounds {n q : ℤ} {a p low high : ℚ} (hn : 0 < n) (hq : 0 < q)
    (ha : low ≤ a ∧ a ≤ high) (hp : low ≤ p ∧ p ≤ high) :
    low ≤ (n * a + q * p) / ((n + q : ℤ) : ℚ) ∧ (n * a + q * p) / ((n + q : ℤ) : ℚ) ≤ high := by
  have hn' : (0 : ℚ) < n := by exact_mod_cast hn
  have hq' : (0 : ℚ) < q := by exact_mod_cast hq
  have hsum : (0 : ℚ) < ((n + q : ℤ) : ℚ) := by
    push_cast
    exact add_pos hn' hq'
  rw [le_div_iff₀ hsum, div_le_iff₀ hsum]
  push_cast
  constructor
  · have h₁ := mul_le_mul_of_nonneg_left ha.1 hn'.le
    have h₂ := mul_le_mul_of_nonneg_left hp.1 hq'.le
    linarith
  · have h₁ := mul_le_mul_of_nonneg_left ha.2 hn'.le
    have h₂ := mul_le_mul_of_nonneg_left hp.2 hq'.le
    linarith

section

variable [DecidableEq M] [DecidableEq S] {db : Database M S D ℚ} {trade : BookedTrade M S D ℚ}

lemma bought_there {row : Holding ℚ}
    (hrow : db.holdings (trade.memberId, trade.symbol) = some row) (hpos : 0 < row.quantity) :
    db.bought trade (trade.memberId, trade.symbol) = some
      { quantity := row.quantity + trade.quantity
        avgCost := (row.quantity * row.avgCost + trade.quantity * trade.price) /
          ((row.quantity + trade.quantity : ℤ) : ℚ) } := by
  have hfilter : (db.holdings (trade.memberId, trade.symbol)).filter (0 < ·.quantity)
      = some row := by
    rw [hrow, Option.filter_some_pos (by simpa using hpos)]
  rw [bought, hfilter]
  exact Table.modify_self.trans (by rw [hrow]; rfl)

lemma bought_new (hrow : db.holdings (trade.memberId, trade.symbol) = none) :
    db.bought trade (trade.memberId, trade.symbol) = some ⟨trade.quantity, trade.price⟩ := by
  rw [bought, hrow]
  exact Table.replace_self

variable [DecidableEq D]

lemma Averaged.step (h : db.Averaged) : (db.recordTrade trade).Averaged := by
  intro memberId symbol row hrow
  have hold : db.holdings (memberId, symbol) = some row → 0 < row.quantity ∧
      ∀ low high, (∀ t ∈ (db.recordTrade trade).tradeLog, t.memberId = memberId →
        t.symbol = symbol → t.side = .buy → low ≤ t.price ∧ t.price ≤ high) →
      low ≤ row.avgCost ∧ row.avgCost ≤ high := by
    intro hrow
    obtain ⟨hpos, hbounds⟩ := h memberId symbol row hrow
    refine ⟨hpos, fun low high hlog => hbounds low high fun t ht => hlog t ?_⟩
    rw [recordTrade_tradeLog]
    exact List.mem_append_left _ ht
  by_cases hkey : trade.memberId = memberId ∧ trade.symbol = symbol
  · obtain ⟨rfl, rfl⟩ := hkey
    cases hside : trade.side with
    | buy =>
      have hpaid : trade ∈ (db.recordTrade trade).tradeLog := by simp
      rw [recordTrade_holdings_buy hside] at hrow
      cases hfound : db.holdings (trade.memberId, trade.symbol) with
      | none =>
        rw [bought_new hfound] at hrow
        cases hrow
        exact ⟨trade.quantity_pos, fun low high hlog => hlog trade hpaid rfl rfl hside⟩
      | some old =>
        obtain ⟨hpos, hbounds⟩ := h _ _ _ hfound
        rw [bought_there hfound hpos] at hrow
        cases hrow
        refine ⟨add_pos hpos trade.quantity_pos, fun low high hlog => ?_⟩
        apply mean_bounds hpos trade.quantity_pos _ (hlog trade hpaid rfl rfl hside)
        apply hbounds
        intro t ht
        apply hlog t
        rw [recordTrade_tradeLog]
        exact List.mem_append_left _ ht
    | sell =>
      cases hfound : db.holdings (trade.memberId, trade.symbol) with
      | none =>
        have hsame : (db.recordTrade trade).holdings = db.holdings := by
          simp [recordTrade, hside, sell_of_none hfound]
        rw [hsame] at hrow
        exact hold hrow
      | some old =>
        rw [recordTrade_holdings_row hside hfound, sold] at hrow
        split_ifs at hrow with hgone
        · rw [Table.delete_self] at hrow
          cases hrow
        · rw [Table.modify_self, hfound] at hrow
          cases hrow
          refine ⟨not_le.mp hgone, fun low high hlog => ?_⟩
          apply (h _ _ _ hfound).2
          intro t ht
          apply hlog t
          rw [recordTrade_tradeLog]
          exact List.mem_append_left _ ht
  · rw [recordTrade_holdings_of_ne hkey] at hrow
    exact hold hrow

/-- A trade with another member or in another symbol leaves the cost of a holding alone. -/
lemma costOf_of_ne {memberId : M} {symbol : S}
    (h : ¬(trade.memberId = memberId ∧ trade.symbol = symbol)) :
    (db.recordTrade trade).costOf memberId symbol = db.costOf memberId symbol := by
  rw [costOf, costOf, getHoldings, getHoldings, recordTrade_holdings_of_ne h]

/-- A purchase adds its cost. -/
lemma costOf_buy (h : db.Averaged) (hside : trade.side = .buy) :
    (db.recordTrade trade).costOf trade.memberId trade.symbol
      = db.costOf trade.memberId trade.symbol + trade.quantity * trade.price := by
  have hpos := trade.quantity_pos
  have hafter : (db.recordTrade trade).holdings = db.bought trade := recordTrade_holdings_buy hside
  cases hfound : db.holdings (trade.memberId, trade.symbol) with
  | none =>
    rw [costOf_of_none hfound, zero_add]
    exact costOf_of_row ((congrFun hafter _).trans (bought_new hfound)) hpos
  | some row =>
    have hrow := (h _ _ _ hfound).1
    have hne : ((row.quantity + trade.quantity : ℤ) : ℚ) ≠ 0 := by
      exact_mod_cast (add_pos hrow hpos).ne'
    rw [costOf_of_row hfound hrow,
      costOf_of_row ((congrFun hafter _).trans (bought_there hfound hrow)) (add_pos hrow hpos)]
    exact mul_div_cancel₀ _ hne

/-- A sale takes away the cost of what there is of it. -/
lemma costOf_sell (h : db.Averaged) (hside : trade.side = .sell) {row : Holding ℚ}
    (hrow : db.holdings (trade.memberId, trade.symbol) = some row) :
    (db.recordTrade trade).costOf trade.memberId trade.symbol + trade.quantity * trade.price
      = db.costOf trade.memberId trade.symbol + (Sale.mk trade row).realized
        + (Sale.mk trade row).unbacked := by
  have hafter := recordTrade_holdings_row hside hrow
  rw [costOf_of_row hrow (h _ _ _ hrow).1, Sale.realized, Sale.unbacked]
  dsimp only
  by_cases hgone : row.quantity - trade.quantity ≤ 0
  · have hnone : (db.recordTrade trade).holdings (trade.memberId, trade.symbol) = none := by
      rw [hafter, sold, if_pos hgone, Table.delete_self]
    have hmax : max 0 (trade.quantity - row.quantity) = trade.quantity - row.quantity :=
      max_eq_right (by omega)
    rw [costOf_of_none hnone, hmax]
    push_cast
    ring
  · have hsome : (db.recordTrade trade).holdings (trade.memberId, trade.symbol)
        = some { row with quantity := row.quantity - trade.quantity } := by
      rw [hafter, sold, if_neg hgone, Table.modify_self, hrow]
      rfl
    have hmax : max 0 (trade.quantity - row.quantity) = 0 := max_eq_left (by omega)
    rw [costOf_of_row hsome (not_le.mp hgone), hmax]
    push_cast
    ring

/-- What a trade does to the cost of the holdings of its member. -/
lemma cost_recordTrade [Fintype S] : (db.recordTrade trade).cost trade.memberId
    = db.cost trade.memberId + ((db.recordTrade trade).costOf trade.memberId trade.symbol
      - db.costOf trade.memberId trade.symbol) := by
  rw [cost_eq, cost_eq]
  apply sum_of_ne
  intro symbol hne
  exact costOf_of_ne fun heq => hne heq.2.symm

lemma cost_of_ne [Fintype S] {memberId : M} (h : trade.memberId ≠ memberId) :
    (db.recordTrade trade).cost memberId = db.cost memberId := by
  rw [cost_eq, cost_eq]
  exact sum_congr rfl fun symbol _ => costOf_of_ne fun heq => h heq.1

/-- The row of a day has what the log has of it. -/
lemma getDailyStats_recordTrade {memberId : M} {tradingDate : D}
    (h : db.getDailyStats memberId tradingDate = dayStats memberId tradingDate db.tradeLog) :
    (db.recordTrade trade).getDailyStats memberId tradingDate
      = dayStats memberId tradingDate (db.recordTrade trade).tradeLog := by
  rw [recordTrade_tradeLog]
  rw [getDailyStats] at h ⊢
  by_cases hkey : trade.memberId = memberId ∧ trade.tradingDate = tradingDate
  · obtain ⟨rfl, rfl⟩ := hkey
    rw [dayStats_snoc_self, ← h]
    cases hrow : db.dailyTrades (trade.memberId, trade.tradingDate) with
    | none =>
      have hafter : (db.recordTrade trade).dailyTrades (trade.memberId, trade.tradingDate)
          = some trade.counts := Table.upsert_of_none hrow
      simp [hafter]
    | some row =>
      have hafter : (db.recordTrade trade).dailyTrades (trade.memberId, trade.tradingDate) = some
          { buyCount := row.buyCount + trade.counts.buyCount
            sellCount := row.sellCount + trade.counts.sellCount
            totalSecurities := row.totalSecurities + trade.counts.totalSecurities } :=
        Table.upsert_of_some hrow
      simp [hafter]
  · have hne : (memberId, tradingDate) ≠ (trade.memberId, trade.tradingDate) :=
      fun heq => hkey ⟨(congrArg Prod.fst heq).symm, (congrArg Prod.snd heq).symm⟩
    have hafter : (db.recordTrade trade).dailyTrades (memberId, tradingDate)
        = db.dailyTrades (memberId, tradingDate) := Table.upsert_of_ne hne
    rw [hafter, h, dayStats_snoc_of_ne hkey]

end

end Database

/-! ### Whole runs -/

section

variable [DecidableEq M]

/-- A new member is added with its capital. -/
lemma addMembers_of_mem (chMembers : ChMembers M) {memberId : M} {capital : ℚ}
    (h : (memberId, capital) ∈ chMembers.1) :
    Database.addMembers chMembers.1 memberId = some capital := by
  obtain ⟨members, hnodup⟩ := chMembers
  -- the later members leave its row alone
  have hkeep (members : List (M × ℚ)) : ∀ rows : Table M ℚ, rows memberId = some capital →
      members.foldl (fun rows m => rows.upsert m.1 m.2 id) rows memberId = some capital := by
    induction members with
    | nil => exact fun rows hrows => hrows
    | cons m members ih =>
      intro rows hrows
      apply ih
      by_cases hm : memberId = m.1
      · subst hm
        exact Table.upsert_of_some hrows
      · exact (Table.upsert_of_ne hm).trans hrows
  have hadd : ∀ rows : Table M ℚ, rows memberId = none →
      members.foldl (fun rows m => rows.upsert m.1 m.2 id) rows memberId = some capital := by
    induction members with
    | nil => cases h
    | cons m members ih =>
      intro rows hrows
      rw [List.map_cons, List.nodup_cons] at hnodup
      rcases List.mem_cons.mp h with rfl | h
      · exact hkeep members _ (Table.upsert_of_none hrows)
      · apply ih hnodup.2 h
        have hne : memberId ≠ m.1 := fun heq => hnodup.1 (heq ▸ List.mem_map_of_mem h)
        exact (Table.upsert_of_ne hne).trans hrows
  exact hadd _ rfl

namespace Database

variable [DecidableEq D] [Fintype S]

/-- The books against the log and the sales: with what its holdings have cost, a member has its
first capital, its gains and the cost of what it has sold and did not have. -/
structure Accounted (chMembers : ChMembers M) (db : Database M S D ℚ) (sales : List (Sale M S D)) :
    Prop where
  averaged : db.Averaged
  capital : ∀ m ∈ chMembers.1, ∃ capital, db.members m.1 = some capital ∧
    capital + db.cost m.1 = m.2 + (gains m.1 sales + unbacked m.1 sales)
  daily : ∀ memberId tradingDate,
    db.getDailyStats memberId tradingDate = dayStats memberId tradingDate db.tradeLog

variable {chMembers : ChMembers M} {db : Database M S D ℚ} {sales : List (Sale M S D)}

lemma accounted_initDb : (initDb chMembers.1 : Database M S D ℚ).Accounted chMembers [] where
  averaged _ _ _ hrow := by cases hrow
  capital m hm := by
    refine ⟨m.2, addMembers_of_mem chMembers hm, ?_⟩
    simp [cost, sumHoldings, getHoldings, initDb, gains, unbacked]
  daily _ _ := rfl

/-- What the end of a day makes of the sales and of the log. The gains that it calls realized lack
the cost of what is still held. -/
def due (db : Database M S D ℚ) (sales : List (Sale M S D)) (lastPrice : S → Option ℚ)
    (tradingDate : D) (m : M × ℚ) : Settlement M D :=
  let change := gains m.1 sales + unbacked m.1 sales - db.cost m.1
  { memberId := m.1
    tradingDate := tradingDate
    openingCapital := m.2
    closingCapital := m.2 + change
    realizedPnl := roundCents change
    unrealizedPnl := roundCents (db.holdingsValue m.1 lastPrice - db.cost m.1)
    obligationMet :=
      obligationMinSecurities ≤ (dayStats m.1 tradingDate db.tradeLog).totalSecurities }

lemma Accounted.apiEod (h : db.Accounted chMembers sales) (lastPrice : S → Option ℚ)
    (tradingDate : D) : db.apiEod lastPrice chMembers tradingDate
      = chMembers.1.map (db.due sales lastPrice tradingDate) := by
  apply List.filterMap_eq_map_iff_forall_eq_some.mpr
  intro m hm
  obtain ⟨capital, hcapital, hequity⟩ := h.capital m hm
  have hchange : capital - m.2 = gains m.1 sales + unbacked m.1 sales - db.cost m.1 := by
    linarith
  have hclosing : capital = m.2 + (gains m.1 sales + unbacked m.1 sales - db.cost m.1) := by
    linarith
  simp only [hcapital, Option.map_some, due, h.daily, unrealized_eq, hchange, ← hclosing]

lemma Accounted.totalValue (h : db.Accounted chMembers sales) (lastPrice : S → Option ℚ) :
    ∀ m ∈ chMembers.1, db.totalValue m.1 lastPrice = some (roundCents
      (m.2 + (gains m.1 sales + unbacked m.1 sales) + db.unrealized m.1 lastPrice)) := by
  intro m hm
  obtain ⟨capital, hcapital, hequity⟩ := h.capital m hm
  rw [Database.totalValue, hcapital, ← hequity, unrealized_eq, Option.map_some]
  congr 2
  ring

variable [DecidableEq S]

lemma Accounted.step (h : db.Accounted chMembers sales) (trade : BookedTrade M S D ℚ) :
    (db.book trade).1.Accounted chMembers (sales ++ (db.book trade).2) := by
  refine ⟨h.averaged.step, fun m hm => ?_, fun _ _ => getDailyStats_recordTrade (h.daily _ _)⟩
  obtain ⟨capital, hcapital, hequity⟩ := h.capital m hm
  by_cases hmember : trade.memberId = m.1
  · rw [← hmember] at hcapital hequity ⊢
    cases hside : trade.side with
    | buy =>
      refine ⟨capital + trade.payment trade.memberId, ?_, ?_⟩
      · exact (recordTrade_members_self (by simp [hside])).trans (by rw [hcapital]; rfl)
      · simp only [book, hside, List.append_nil]
        rw [cost_recordTrade, costOf_buy h.averaged hside, ← hequity]
        simp only [BookedTrade.payment, hside, if_true]
        ring
    | sell =>
      cases hrow : db.holdings (trade.memberId, trade.symbol) with
      | none =>
        have hmembers : (db.recordTrade trade).members = db.members := by
          simp [recordTrade, hside, sell_of_none hrow]
        have hholdings : (db.recordTrade trade).holdings = db.holdings := by
          simp [recordTrade, hside, sell_of_none hrow]
        refine ⟨capital, ?_, ?_⟩
        · rw [book, hmembers, hcapital]
        · have hcost : (db.recordTrade trade).cost trade.memberId = db.cost trade.memberId := by
            rw [cost_eq, cost_eq]
            exact sum_congr rfl fun symbol _ => by rw [costOf, costOf, getHoldings, getHoldings,
              hholdings]
          simp only [book, hside, hrow, Option.map_none, Option.toList_none, List.append_nil, hcost]
          exact hequity
      | some row =>
        refine ⟨capital + trade.payment trade.memberId, ?_, ?_⟩
        · exact (recordTrade_members_self (by simp [hrow])).trans (by rw [hcapital]; rfl)
        · simp only [book, hside, hrow, Option.map_some, Option.toList_some]
          have hsum := gains_snoc_self sales ⟨trade, row⟩
          have hcost := costOf_sell h.averaged hside hrow
          rw [hsum, cost_recordTrade]
          simp only [BookedTrade.payment, hside, if_true]
          linarith
  · refine ⟨capital, (recordTrade_members_of_ne hmember).trans hcapital, ?_⟩
    rw [book, cost_of_ne hmember, hequity]
    cases hside : trade.side with
    | buy => simp
    | sell =>
      cases hrow : db.holdings (trade.memberId, trade.symbol) with
      | none => simp
      | some row =>
        simp only [Option.map_some, Option.toList_some]
        rw [gains_snoc_of_ne hmember]

end Database

/-- In every run from new tables, the books are what the sales and the log make of them, rows have
an average cost that was paid, the leaderboard counts all gains, and the end of the day records what
is due. -/
theorem run_equity [DecidableEq S] [DecidableEq D] [Fintype S] (chMembers : ChMembers M)
    (trades : List (BookedTrade M S D ℚ)) :
    Machine.Throughout (Machine.recording Database.book)
      (fun s => s.1.Accounted chMembers s.2 ∧ (∀ lastPrice tradingDate,
        s.1.apiEod lastPrice chMembers tradingDate
          = chMembers.1.map (s.1.due s.2 lastPrice tradingDate)) ∧
        ∀ lastPrice, ∀ m ∈ chMembers.1, s.1.totalValue m.1 lastPrice = some (roundCents
          (m.2 + (gains m.1 s.2 + unbacked m.1 s.2) + s.1.unrealized m.1 lastPrice)))
      (Database.initDb chMembers.1, []) trades := by
  have hstart : (Database.initDb chMembers.1 : Database M S D ℚ).Accounted chMembers [] :=
    Database.accounted_initDb
  have hall : Machine.Throughout (Machine.recording Database.book)
      (fun s => s.1.Accounted chMembers s.2) (Database.initDb chMembers.1, []) trades :=
    Machine.throughout_of_along (C := fun _ _ => True) (fun s trade _ h => h.step trade)
      (Machine.along_of_forall (A := fun _ => True) (by simp)) hstart
  exact hall.mono fun s h => ⟨h, h.apiEod, h.totalValue⟩

end

end EuNEx.Clearing
