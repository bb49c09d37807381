import EuNEx.Common.Types
import EuNEx.Lib.Machine
import EuNEx.Lib.Table
import EuNEx.Lib.Tally
import Mathlib.Algebra.Field.Defs
import Mathlib.Data.Int.Cast.Lemmas
import Mathlib.Data.Rat.Defs
import Mathlib.Order.Lattice
import Mathlib.Tactic.Abel
import Mathlib.Tactic.Ring

/-!
# The clearing database

`clearing_house/ch_database.py`. A trade is booked in one transaction: the capital of the member,
what it holds of the symbol, the log of trades and the counts of the day. What a member has is
compared with what the log says it bought and sold; they part with the first sale of more than it
held, which is logged and counted like any other.

Prices are those of any field, as the average cost of a holding is a quotient; the floats of the
code, and its columns of type REAL, are taken to be exact.
-/

namespace EuNEx.Clearing

/-- A row of `ch_holdings`. -/
structure Holding (P : Type*) where
  quantity : ℤ
  avgCost : P

/-- A row of `ch_daily_trades`. -/
structure DailyTrades where
  buyCount : ℤ
  sellCount : ℤ
  totalSecurities : ℤ

/-- What `record_trade` is called with, and the row that it adds to `ch_trade_log`. -/
structure BookedTrade (M S D P : Type*) where
  memberId : M
  symbol : S
  side : Side
  quantity : ℤ
  price : P
  clOrdId : List Char
  tradingDate : D
  quantity_pos : 0 < quantity

/-- The tables: `ch_members` with the capital of each member, `ch_holdings`, `ch_daily_trades` and
`ch_trade_log`. -/
structure Database (M S D P : Type*) where
  members : Table M P := fun _ => none
  holdings : Table (M × S) (Holding P) := fun _ => none
  dailyTrades : Table (M × D) DailyTrades := fun _ => none
  tradeLog : List (BookedTrade M S D P) := []

variable {M S D P : Type*}

/-- What a trade adds to the counts of its day. -/
def BookedTrade.counts (trade : BookedTrade M S D P) : DailyTrades where
  buyCount := if trade.side = .buy then trade.quantity else 0
  sellCount := if trade.side = .sell then trade.quantity else 0
  totalSecurities := trade.quantity

namespace Database

variable [DecidableEq M] [DecidableEq S] [DecidableEq D] [Field P]

/-- `INSERT OR IGNORE`: a member that is there keeps its capital. -/
def addMembers (members : List (M × P)) : Table M P :=
  members.foldl (fun rows m => rows.upsert m.1 m.2 id) fun _ => none

/-- `init_db`, where there are no tables. -/
def initDb (members : List (M × P)) : Database M S D P := { members := addMembers members }

variable (db : Database M S D P) (trade : BookedTrade M S D P)

/-- `get_holdings`: the rows of a member, by symbol. -/
def getHoldings (memberId : M) : Table S (Holding P) :=
  fun symbol => (db.holdings (memberId, symbol)).filter (0 < ·.quantity)

/-- The quantity that is held: 0 without a row. -/
def held (memberId : M) (symbol : S) : ℤ :=
  (db.getHoldings memberId symbol).elim 0 Holding.quantity

/-- A bought quantity joins the row, at the average cost, or makes a new one. -/
def bought : Table (M × S) (Holding P) :=
  match (db.holdings (trade.memberId, trade.symbol)).filter (0 < ·.quantity) with
  | some row => db.holdings.modify (trade.memberId, trade.symbol) fun _ =>
      { quantity := row.quantity + trade.quantity
        avgCost := (row.quantity * row.avgCost + trade.quantity * trade.price) /
          ((row.quantity + trade.quantity : ℤ) : P) }
  | none => db.holdings.replace (trade.memberId, trade.symbol) ⟨trade.quantity, trade.price⟩

/-- The row goes with the last of it. -/
def sold (row : Holding P) : Table (M × S) (Holding P) :=
  if row.quantity - trade.quantity ≤ 0 then
    db.holdings.delete (trade.memberId, trade.symbol)
  else
    db.holdings.modify (trade.memberId, trade.symbol) fun row' =>
      { row' with quantity := row.quantity - trade.quantity }

def buy : Database M S D P :=
  { db with
    members := db.members.modify trade.memberId (· - trade.quantity * trade.price)
    holdings := db.bought trade }

/-- A sale is paid in full from any row, and not at all without one. -/
def sell : Database M S D P :=
  match db.holdings (trade.memberId, trade.symbol) with
  | some row => { db with
      members := db.members.modify trade.memberId (· + trade.quantity * trade.price)
      holdings := db.sold trade row }
  | none => db

/-- `record_trade`. -/
def recordTrade : Database M S D P :=
  let db' := match trade.side with
    | .buy => db.buy trade
    | .sell => db.sell trade
  { db' with
    tradeLog := db.tradeLog ++ [trade]
    dailyTrades := db.dailyTrades.upsert (trade.memberId, trade.tradingDate) trade.counts
      fun row =>
        { buyCount := row.buyCount + trade.counts.buyCount
          sellCount := row.sellCount + trade.counts.sellCount
          totalSecurities := row.totalSecurities + trade.counts.totalSecurities } }

end Database

/-! ### What the log says -/

section

variable [DecidableEq M] [DecidableEq S]

/-- The quantity of a symbol that a member has bought, or sold. -/
def loggedQuantity (memberId : M) (symbol : S) (side : Side)
    (tradeLog : List (BookedTrade M S D P)) : ℤ :=
  Tally.balance (fun trade => if trade.memberId = memberId ∧ trade.symbol = symbol ∧
    trade.side = side then trade.quantity else 0) tradeLog

/-- What a trade brings a member of a symbol. -/
def BookedTrade.delivery (trade : BookedTrade M S D P) (memberId : M) (symbol : S) : ℤ :=
  if trade.memberId = memberId ∧ trade.symbol = symbol then
    match trade.side with
    | .buy => trade.quantity
    | .sell => -trade.quantity
  else 0

lemma loggedQuantity_snoc {tradeLog : List (BookedTrade M S D P)} {trade : BookedTrade M S D P}
    {memberId : M} {symbol : S} : loggedQuantity memberId symbol .buy (tradeLog ++ [trade])
      - loggedQuantity memberId symbol .sell (tradeLog ++ [trade])
    = loggedQuantity memberId symbol .buy tradeLog
      - loggedQuantity memberId symbol .sell tradeLog + trade.delivery memberId symbol := by
  simp only [loggedQuantity, Tally.balance_snoc, BookedTrade.delivery]
  by_cases hm : trade.memberId = memberId ∧ trade.symbol = symbol
  · cases hside : trade.side with
    | buy =>
      simp [hm]
      ring
    | sell =>
      simp [hm]
      ring
  · have hnot (side : Side) : ¬(trade.memberId = memberId ∧ trade.symbol = symbol ∧
        trade.side = side) := fun h => hm ⟨h.1, h.2.1⟩
    simp [hm, hnot]

end

section

variable [DecidableEq M] [Field P]

/-- The value of what a member has bought, or sold. -/
def loggedValue (memberId : M) (side : Side) (tradeLog : List (BookedTrade M S D P)) : P :=
  Tally.balance (fun trade => if trade.memberId = memberId ∧ trade.side = side then
    (trade.quantity : P) * trade.price else 0) tradeLog

/-- What a trade pays to a member. -/
def BookedTrade.payment (trade : BookedTrade M S D P) (memberId : M) : P :=
  if trade.memberId = memberId then
    match trade.side with
    | .buy => -(trade.quantity * trade.price)
    | .sell => trade.quantity * trade.price
  else 0

lemma loggedValue_snoc {tradeLog : List (BookedTrade M S D P)} {trade : BookedTrade M S D P}
    {memberId : M} (capital : P) : capital - loggedValue memberId .buy (tradeLog ++ [trade])
      + loggedValue memberId .sell (tradeLog ++ [trade])
    = capital - loggedValue memberId .buy tradeLog + loggedValue memberId .sell tradeLog
      + trade.payment memberId := by
  simp only [loggedValue, Tally.balance_snoc, BookedTrade.payment]
  by_cases hm : trade.memberId = memberId
  · cases hside : trade.side with
    | buy =>
      simp [hm]
      ring
    | sell =>
      simp [hm]
      ring
  · simp [hm]

end

/-! ### What a booking changes -/

namespace Database

section

variable {db db' : Database M S D P} {memberId : M} {symbol : S}

lemma held_of_row {row : Holding P} (h : db.holdings (memberId, symbol) = some row) :
    db.held memberId symbol = max 0 row.quantity := by
  rw [held, getHoldings, h]
  by_cases hpos : 0 < row.quantity
  · rw [Option.filter_some_pos (by simpa using hpos), max_eq_right hpos.le]
    rfl
  · rw [Option.filter_some_neg (by simpa using hpos), max_eq_left (not_lt.mp hpos)]
    rfl

lemma held_of_none (h : db.holdings (memberId, symbol) = none) : db.held memberId symbol = 0 := by
  rw [held, getHoldings, h]
  rfl

lemma held_nonneg : 0 ≤ db.held memberId symbol := by
  cases h : db.holdings (memberId, symbol) with
  | none => exact (held_of_none h).ge
  | some row => exact (held_of_row h).symm ▸ le_max_left _ _

lemma held_congr (h : db'.holdings (memberId, symbol) = db.holdings (memberId, symbol)) :
    db'.held memberId symbol = db.held memberId symbol := by
  rw [held, getHoldings, h, held, getHoldings]

end

variable [DecidableEq M] [DecidableEq S] [Field P] {db : Database M S D P}
  {trade : BookedTrade M S D P} {memberId : M} {symbol : S}

lemma bought_of_ne {key : M × S} (h : key ≠ (trade.memberId, trade.symbol)) :
    db.bought trade key = db.holdings key := by
  rw [bought]
  cases (db.holdings (trade.memberId, trade.symbol)).filter (0 < ·.quantity) with
  | some row => exact Table.modify_of_ne h
  | none => exact Table.replace_of_ne h

/-- A row without a quantity counts for nothing, and is replaced. -/
lemma bought_self (db : Database M S D P) (trade : BookedTrade M S D P) :
    ∃ row, db.bought trade (trade.memberId, trade.symbol) = some row ∧
      row.quantity = db.held trade.memberId trade.symbol + trade.quantity := by
  rw [bought, held, getHoldings]
  cases hrow : (db.holdings (trade.memberId, trade.symbol)).filter (0 < ·.quantity) with
  | some row =>
    have hthere := (Option.filter_eq_some_iff.mp hrow).1
    exact ⟨_, Table.modify_self.trans (by rw [hthere]; rfl), rfl⟩
  | none => exact ⟨_, Table.replace_self, (zero_add _).symm⟩

/-- A sale without a row is logged and counted, and nothing else. -/
lemma sell_of_none (hrow : db.holdings (trade.memberId, trade.symbol) = none) :
    db.sell trade = db := by
  simp [sell, hrow]

variable [DecidableEq D]

@[simp] lemma recordTrade_tradeLog : (db.recordTrade trade).tradeLog = db.tradeLog ++ [trade] := rfl

lemma recordTrade_holdings_buy (hside : trade.side = .buy) :
    (db.recordTrade trade).holdings = db.bought trade := by
  simp [recordTrade, hside, buy]

lemma recordTrade_holdings_row (hside : trade.side = .sell) {row : Holding P}
    (hrow : db.holdings (trade.memberId, trade.symbol) = some row) :
    (db.recordTrade trade).holdings = db.sold trade row := by
  simp [recordTrade, hside, sell, hrow]

/-- Only the row of the member and the symbol changes. -/
lemma recordTrade_holdings_of_ne (h : ¬(trade.memberId = memberId ∧ trade.symbol = symbol)) :
    (db.recordTrade trade).holdings (memberId, symbol) = db.holdings (memberId, symbol) := by
  have hne : (memberId, symbol) ≠ (trade.memberId, trade.symbol) :=
    fun heq => h ⟨(congrArg Prod.fst heq).symm, (congrArg Prod.snd heq).symm⟩
  cases hside : trade.side with
  | buy =>
    rw [recordTrade_holdings_buy hside]
    exact bought_of_ne hne
  | sell =>
    cases hrow : db.holdings (trade.memberId, trade.symbol) with
    | none => simp [recordTrade, hside, sell_of_none hrow]
    | some row =>
      rw [recordTrade_holdings_row hside hrow, sold]
      split
      · exact Table.delete_of_ne hne
      · exact Table.modify_of_ne hne

lemma held_buy (hside : trade.side = .buy) : (db.recordTrade trade).held trade.memberId trade.symbol
    = db.held trade.memberId trade.symbol + trade.quantity := by
  obtain ⟨row, hrow, hquantity⟩ := bought_self db trade
  have hnonneg : 0 ≤ db.held trade.memberId trade.symbol := held_nonneg
  have hpos := trade.quantity_pos
  rw [held_of_row (by rw [recordTrade_holdings_buy hside, hrow]), hquantity]
  exact max_eq_right (by omega)

/-- A sale takes what there is. -/
lemma held_sell (hside : trade.side = .sell) :
    (db.recordTrade trade).held trade.memberId trade.symbol
      = max 0 (db.held trade.memberId trade.symbol - trade.quantity) := by
  have hpos := trade.quantity_pos
  cases hrow : db.holdings (trade.memberId, trade.symbol) with
  | none =>
    have hsame : (db.recordTrade trade).holdings = db.holdings := by
      simp [recordTrade, hside, sell_of_none hrow]
    rw [held_congr (congrFun hsame _), held_of_none hrow]
    omega
  | some row =>
    have hafter := recordTrade_holdings_row hside hrow
    rw [sold] at hafter
    rw [held_of_row hrow]
    split at hafter
    · rw [held_of_none (by rw [hafter, Table.delete_self])]
      omega
    · have hrow' : (db.recordTrade trade).holdings (trade.memberId, trade.symbol)
          = some { row with quantity := row.quantity - trade.quantity } := by
        rw [hafter, Table.modify_self, hrow]
        rfl
      rw [held_of_row hrow']
      dsimp only
      omega

/-- A purchase adds to what is held, and a sale takes away what there is. -/
lemma recordTrade_held : (db.recordTrade trade).held memberId symbol
    = max 0 (db.held memberId symbol + trade.delivery memberId symbol) := by
  have hnonneg : 0 ≤ db.held memberId symbol := held_nonneg
  by_cases h : trade.memberId = memberId ∧ trade.symbol = symbol
  · obtain ⟨rfl, rfl⟩ := h
    cases hside : trade.side with
    | buy =>
      have hpos := trade.quantity_pos
      simp only [held_buy hside, BookedTrade.delivery, hside]
      rw [if_pos ⟨trivial, trivial⟩, max_eq_right (by omega)]
    | sell => simp [held_sell hside, BookedTrade.delivery, hside, sub_eq_add_neg]
  · rw [held_congr (recordTrade_holdings_of_ne h), BookedTrade.delivery, if_neg h, add_zero,
      max_eq_right hnonneg]

/-- A trade is paid unless it is a sale without a row. -/
lemma recordTrade_members_self (h : trade.side = .sell →
      (db.holdings (trade.memberId, trade.symbol)).isSome = true) :
    (db.recordTrade trade).members trade.memberId
      = (db.members trade.memberId).map (· + trade.payment trade.memberId) := by
  cases hside : trade.side with
  | buy => simp [recordTrade, hside, buy, BookedTrade.payment, sub_eq_add_neg]
  | sell =>
    obtain ⟨row, hrow⟩ := Option.isSome_iff_exists.mp (h hside)
    simp [recordTrade, hside, sell, hrow, BookedTrade.payment]

lemma recordTrade_members_of_ne (h : trade.memberId ≠ memberId) :
    (db.recordTrade trade).members memberId = db.members memberId := by
  cases hside : trade.side with
  | buy => simp [recordTrade, hside, buy, Table.modify_of_ne h.symm]
  | sell =>
    cases hrow : db.holdings (trade.memberId, trade.symbol) with
    | none => simp [recordTrade, hside, sell_of_none hrow]
    | some row => simp [recordTrade, hside, sell, hrow, Table.modify_of_ne h.symm]

/-- No member is added. -/
lemma isSome_members_recordTrade :
    ((db.recordTrade trade).members memberId).isSome = (db.members memberId).isSome := by
  by_cases hm : trade.memberId = memberId
  · subst hm
    cases hside : trade.side with
    | buy => simp [recordTrade, hside, buy]
    | sell =>
      cases hrow : db.holdings (trade.memberId, trade.symbol) with
      | none => simp [recordTrade, hside, sell_of_none hrow]
      | some row => simp [recordTrade, hside, sell, hrow]
  · rw [recordTrade_members_of_ne hm]

end Database

/-! ### The books and the log -/

namespace Database

/-- A member sells no more than it holds. -/
def Covers (db : Database M S D P) (trade : BookedTrade M S D P) : Prop :=
  trade.side = .sell → (db.members trade.memberId).isSome = true →
    trade.quantity ≤ db.held trade.memberId trade.symbol

instance (db : Database M S D P) (trade : BookedTrade M S D P) :
    Decidable (db.Covers trade) :=
  inferInstanceAs (Decidable (_ → _ → _))

variable {db : Database M S D P} {trade : BookedTrade M S D P}

/-- A sale that is covered has a row. -/
lemma isSome_of_le_held (h : trade.quantity ≤ db.held trade.memberId trade.symbol) :
    (db.holdings (trade.memberId, trade.symbol)).isSome = true := by
  cases hrow : db.holdings (trade.memberId, trade.symbol) with
  | none =>
    rw [held_of_none hrow] at h
    exact absurd trade.quantity_pos (not_lt.mpr h)
  | some row => rfl

variable [DecidableEq M] [DecidableEq S]

/-- What a trade delivers can be taken from what is held. -/
lemma Covers.delivery_le (h : db.Covers trade) {memberId : M}
    (hm : (db.members memberId).isSome = true) (symbol : S) :
    0 ≤ db.held memberId symbol + trade.delivery memberId symbol := by
  have hnonneg : 0 ≤ db.held memberId symbol := held_nonneg
  have hpos := trade.quantity_pos
  rw [BookedTrade.delivery]
  split
  · rename_i heq
    obtain ⟨rfl, rfl⟩ := heq
    cases hside : trade.side with
    | buy =>
      dsimp only
      omega
    | sell =>
      have hle := h hside hm
      dsimp only
      omega
  · rwa [add_zero]

variable [Field P]

/-- Each member has what the log makes of what it began with. -/
structure Consistent (opening : Table M P) (db : Database M S D P) : Prop where
  capital : ∀ memberId capital, opening memberId = some capital →
    db.members memberId = some (capital - loggedValue memberId .buy db.tradeLog
      + loggedValue memberId .sell db.tradeLog)
  held : ∀ memberId, (opening memberId).isSome = true → ∀ symbol,
    db.held memberId symbol = loggedQuantity memberId symbol .buy db.tradeLog
      - loggedQuantity memberId symbol .sell db.tradeLog

variable [DecidableEq D]

/-- The transaction as a step of a machine. -/
def next (db : Database M S D P) (trade : BookedTrade M S D P) : Database M S D P × List Unit :=
  (db.recordTrade trade, [])

/-- A trade that is covered is paid. -/
lemma Covers.members (h : db.Covers trade) {memberId : M}
    (hm : (db.members memberId).isSome = true) :
    (db.recordTrade trade).members memberId
      = (db.members memberId).map (· + trade.payment memberId) := by
  by_cases hmember : trade.memberId = memberId
  · subst hmember
    exact recordTrade_members_self fun hside => isSome_of_le_held (h hside hm)
  · rw [recordTrade_members_of_ne hmember]
    simp [BookedTrade.payment, hmember]

/-- The books and the log part at the first sale that is not covered. -/
lemma Consistent.recordTrade_iff {opening : Table M P} (h : db.Consistent opening)
    (hmembers : ∀ memberId, (db.members memberId).isSome = (opening memberId).isSome) :
    (db.recordTrade trade).Consistent opening ↔ db.Covers trade := by
  constructor
  · intro hafter hside hm
    have hheld := hafter.held trade.memberId (by rwa [← hmembers]) trade.symbol
    rw [recordTrade_tradeLog, loggedQuantity_snoc, ← h.held _ (by rwa [← hmembers]),
      recordTrade_held] at hheld
    have hdelivery : trade.delivery trade.memberId trade.symbol = -trade.quantity := by
      simp [BookedTrade.delivery, hside]
    omega
  · intro hcovers
    refine ⟨fun memberId capital hopening => ?_, fun memberId hopening symbol => ?_⟩
    · have hcapital := h.capital memberId capital hopening
      rw [recordTrade_tradeLog, loggedValue_snoc, hcovers.members (by simp [hcapital]), hcapital]
      rfl
    · rw [recordTrade_tradeLog, loggedQuantity_snoc, ← h.held memberId hopening, recordTrade_held]
      exact max_eq_right (hcovers.delivery_le (by rwa [hmembers]) symbol)

end Database

section

variable [DecidableEq M] [DecidableEq S] [DecidableEq D] [Field P]

/-- In every run from new tables the books and the log agree throughout, and what is not covered
changes nothing, exactly if every sale of a member is covered by what it holds. -/
theorem run_consistent_iff (members : List (M × P)) (trades : List (BookedTrade M S D P)) :
    Machine.Throughout Database.next (Database.Consistent (Database.addMembers members))
        (Database.initDb members) trades ∧
      Machine.Along Database.next (fun db trade => ¬db.Covers trade → db.recordTrade trade = db)
        (Database.initDb members) trades ↔
    Machine.Along Database.next Database.Covers (Database.initDb members) trades := by
  refine Machine.throughout_along_iff (A := fun _ _ => True)
    (I := fun db => ∀ memberId, (db.members memberId).isSome
      = (Database.addMembers members memberId).isSome)
    (fun db trade _ h memberId => Database.isSome_members_recordTrade.trans (h memberId))
    (fun db trade _ hmembers h => ?_) (Machine.along_of_forall fun _ _ => trivial)
    (fun _ => rfl) ⟨fun _ _ h => ?_, fun _ _ _ => ?_⟩
  · rw [Database.next, h.recordTrade_iff hmembers]
    exact and_iff_left_of_imp fun hcovers hnot => absurd hcovers hnot
  · simpa [Database.initDb, loggedValue] using h
  · rfl

end

/-- A sale by a member that holds nothing. -/
def saleWithoutRow : BookedTrade ℕ ℕ ℕ ℚ where
  memberId := 0
  symbol := 1
  side := .sell
  quantity := 5
  price := 10
  clOrdId := []
  tradingDate := 0
  quantity_pos := by decide

/-- It is logged, and 0 is held. -/
theorem not_consistent_saleWithoutRow :
    ¬(Machine.Throughout Database.next (Database.Consistent (Database.addMembers [(0, 1000)]))
        (Database.initDb [(0, 1000)]) [saleWithoutRow] ∧
      Machine.Along Database.next (fun db trade => ¬db.Covers trade → db.recordTrade trade = db)
        (Database.initDb [(0, 1000)]) [saleWithoutRow]) := by
  rintro ⟨h, -⟩
  have hheld := h.2.held 0 rfl 1
  exact absurd hheld (by decide)

end EuNEx.Clearing
