import EuNEx.Clearing.Database
import EuNEx.Dashboard.Submitted
import Mathlib.Algebra.BigOperators.Ring.List
import Mathlib.Algebra.Order.Field.Rat
import Mathlib.Data.Int.Cast.Lemmas

/-!
# Members of the clearing house at the engine

`AITrader._submit_order` of `clearing_house/ch_ai_trader.py` and `submit_order` of
`clearing_house/app.py`. An order goes to the engine of the dashboard, and when the answer comes
back, what it has filled is booked at the limit of the order. The clearing house does not learn the
prices of the trades, nor of the trades of an order that rests: a run in which the books are right
is one in which neither matters.

An answer comes back some time after the engine has given it. Any order may be posted, whatever the
strategies choose. What is printed is left out.
-/

namespace EuNEx.Clearing

open Dashboard (MatchingEngine Request symbolNamed openQty)

/-- An order of a member: a limit order for the day. -/
structure MemberOrder (M P : Type*) where
  memberId : M
  symbol : List Char
  side : Side
  quantity : ℤ
  price : P
  clOrdId : List Char

/-- The engine, the clearing database, and the answers that have not come back. `owners` has the
member and the symbol of each order id that the engine has given to an order of a member. -/
structure Services (M D P : Type*) where
  engine : MatchingEngine P := {}
  db : Database M (List Char) D P
  answers : List (MemberOrder M P × Dashboard.Order P) := []
  owners : Table ℕ (M × List Char) := fun _ => none

variable {M D P : Type*}

/-- The order that is posted. -/
def MemberOrder.submission (o : MemberOrder M P) : Dashboard.Submission P where
  side := o.side
  orderType := .limit
  price := o.price
  quantity := o.quantity
  tif := .day
  clOrdId := o.clOrdId

/-- What an answer says has been filled, for the statuses that tell of a fill. -/
def filledQty (result : Dashboard.Order P) : ℤ :=
  if result.status = .filled ∨ result.status = .partiallyFilled then
    result.quantity - result.remainingQty
  else 0

/-- The arguments of `record_trade` for an answer. -/
def booked (o : MemberOrder M P) (result : Dashboard.Order P) (tradingDate : D) :
    Option (BookedTrade M (List Char) D P) :=
  if h : 0 < filledQty result then
    some
      { memberId := o.memberId
        symbol := o.symbol
        side := o.side
        quantity := filledQty result
        price := o.price
        clOrdId := o.clOrdId
        tradingDate := tradingDate
        quantity_pos := h }
  else none

/-- An order of the trader, an order on the web page, an answer that comes back on some day, or a
request of another participant. -/
inductive Happening (M D P : Type*) where
  | ai (order : MemberOrder M P)
  | human (order : MemberOrder M P)
  | answered (n : ℕ) (tradingDate : D)
  | other (request : Request P)

namespace Services

section

variable [DecidableEq M] [DecidableEq D] [Field P] [LinearOrder P] (symbols : List (ℕ × List Char))
  (s : Services M D P)

/-- `_submit_order`, up to the answer: an order for an unknown symbol is dropped. -/
def submit (o : MemberOrder M P) : Services M D P :=
  match symbolNamed symbols o.symbol with
  | none => s
  | some symbolIdx =>
    match s.engine.handle (symbols.map Prod.fst) (.submit symbolIdx o.submission) with
    | (engine, some result) =>
      { s with
        engine := engine
        answers := s.answers ++ [(o, result)]
        owners := s.owners.replace result.orderId (o.memberId, o.symbol) }
    | (engine, none) => { s with engine := engine }

/-- The checks of the page; a member that is not there raises an exception. -/
def permits (o : MemberOrder M P) : Bool :=
  match s.db.members o.memberId with
  | none => false
  | some capital => !(o.side = .buy ∧ capital < o.quantity * o.price) &&
      !(o.side = .sell ∧ s.db.held o.memberId o.symbol < o.quantity)

/-- An answer comes back. -/
def book (n : ℕ) (tradingDate : D) : Services M D P :=
  match s.answers[n]? with
  | none => s
  | some (o, result) =>
    { s with
      answers := s.answers.eraseIdx n
      db := ((booked o result tradingDate).map s.db.recordTrade).getD s.db }

/-- What happens next. -/
def next : Happening M D P → Services M D P × List Unit
  | .ai o => (s.submit symbols o, [])
  | .human o => (if s.permits o then s.submit symbols o else s, [])
  | .answered n tradingDate => (s.book n tradingDate, [])
  | .other request =>
    ({ s with engine := (s.engine.handle (symbols.map Prod.fst) request).1 }, [])

end

end Services

/-! ### What should hold -/

section

variable [DecidableEq M] [Field P] (owners : Table ℕ (M × List Char)) (memberId : M)

/-- What a trade of the engine pays to a member, as the owner of the seller's order or of the
buyer's. -/
def tradePayment (t : Dashboard.Trade P) : P :=
  (if (owners t.sellOrderId).map Prod.fst = some memberId then (t.quantity : P) * t.price else 0)
    - if (owners t.buyOrderId).map Prod.fst = some memberId then (t.quantity : P) * t.price else 0

/-- What it brings a member of a symbol. -/
def tradeDelivery (symbol : List Char) (t : Dashboard.Trade P) : ℤ :=
  (if owners t.buyOrderId = some (memberId, symbol) then t.quantity else 0)
    - if owners t.sellOrderId = some (memberId, symbol) then t.quantity else 0

/-- Each member has what the trades of its orders make of what it began with. -/
structure Services.Settled (opening : Database M (List Char) D P) (s : Services M D P) : Prop where
  capital : ∀ memberId capital, opening.members memberId = some capital →
    s.db.members memberId
      = some (capital + Tally.balance (tradePayment s.owners memberId) s.engine.trades)
  held : ∀ memberId, (opening.members memberId).isSome = true → ∀ symbol,
    s.db.held memberId symbol = opening.held memberId symbol
      + Tally.balance (tradeDelivery s.owners memberId symbol) s.engine.trades

end

namespace Services

section

variable [LinearOrder P] (s : Services M D P)

/-- What is booked as sold is there. -/
def SellsHeld : Happening M D P → Prop
  | .answered n tradingDate => ∀ a ∈ s.answers[n]?, ∀ trade ∈ booked a.1 a.2 tradingDate,
      s.db.Covers trade
  | _ => True

instance : DecidablePred s.SellsHeld
  | .answered n tradingDate => inferInstanceAs (Decidable (∀ a ∈ s.answers[n]?,
      ∀ trade ∈ booked a.1 a.2 tradingDate, s.db.Covers trade))
  | .ai _ | .human _ | .other _ => inferInstanceAs (Decidable True)

/-- An order of a member trades at its limit, with orders that no member owns. What it takes is
not negative: that is so unless an amend has put a negative quantity into the book. -/
def FairOrder (symbols : List (ℕ × List Char)) (o : MemberOrder M P) : Prop :=
  ∀ symbolIdx ∈ symbolNamed symbols o.symbol,
    (∀ e ∈ s.engine.counterparties (o.submission.order symbolIdx s.engine.nextOrderId),
      e.price = o.price ∧ s.owners e.orderId = none) ∧
    0 ≤ openQty (s.engine.counterparties (o.submission.order symbolIdx s.engine.nextOrderId))

instance (symbols : List (ℕ × List Char)) (o : MemberOrder M P) :
    Decidable (s.FairOrder symbols o) :=
  inferInstanceAs (Decidable (∀ symbolIdx ∈ symbolNamed symbols o.symbol,
    (∀ e ∈ s.engine.counterparties (o.submission.order symbolIdx s.engine.nextOrderId),
      e.price = o.price ∧ s.owners e.orderId = none) ∧ 0 ≤ openQty _))

end

/-- No order trades with an order of a member that rests, and no order of a member at a price that
is better than its limit. -/
def Fair [DecidableEq M] [DecidableEq D] [Field P] [LinearOrder P] (symbols : List (ℕ × List Char))
    (s : Services M D P) : Happening M D P → Prop
  | .ai o => s.FairOrder symbols o
  | .human o => s.permits o = true → s.FairOrder symbols o
  | .answered _ _ => True
  | .other (.submit symbolIdx r) => symbolIdx ∈ symbols.map Prod.fst →
      ∀ e ∈ s.engine.counterparties (r.order symbolIdx s.engine.nextOrderId),
        s.owners e.orderId = none
  | .other _ => True

instance [DecidableEq M] [DecidableEq D] [Field P] [LinearOrder P]
    (symbols : List (ℕ × List Char)) (s : Services M D P) : DecidablePred (s.Fair symbols)
  | .ai o => inferInstanceAs (Decidable (s.FairOrder symbols o))
  | .human o => inferInstanceAs (Decidable (s.permits o = true → s.FairOrder symbols o))
  | .answered _ _ | .other (.cancel _) | .other (.amend _ _ _) => inferInstanceAs (Decidable True)
  | .other (.submit symbolIdx r) => inferInstanceAs (Decidable (symbolIdx ∈ symbols.map Prod.fst →
      ∀ e ∈ s.engine.counterparties (r.order symbolIdx s.engine.nextOrderId),
        s.owners e.orderId = none))

end Services

/-! ### What is to be booked -/

section

variable [DecidableEq M] (o : MemberOrder M P)

/-- What an answer that comes back is booked with. -/
def bookedQty (result : Dashboard.Order P) : ℤ := max 0 (filledQty result)

/-- What the order of a member pays for each unit. -/
def MemberOrder.unitPayment [Field P] (memberId : M) : P :=
  if o.memberId = memberId then
    match o.side with
    | .buy => -o.price
    | .sell => o.price
  else 0

/-- What it brings for each unit. -/
def MemberOrder.unitDelivery (memberId : M) (symbol : List Char) : ℤ :=
  if o.memberId = memberId ∧ o.symbol = symbol then
    match o.side with
    | .buy => 1
    | .sell => -1
  else 0

/-- What is still to be booked for an answer. -/
def duePayment [Field P] (memberId : M) (a : MemberOrder M P × Dashboard.Order P) : P :=
  a.1.unitPayment memberId * (bookedQty a.2 : P)

def dueDelivery (memberId : M) (symbol : List Char)
    (a : MemberOrder M P × Dashboard.Order P) : ℤ :=
  a.1.unitDelivery memberId symbol * bookedQty a.2

variable {o} {result : Dashboard.Order P} {tradingDate : D} {trade : BookedTrade M (List Char) D P}
  {memberId : M}

omit [DecidableEq M] in
lemma bookedQty_of_none (h : booked o result tradingDate = none) : bookedQty result = 0 := by
  rw [booked] at h
  split at h
  · cases h
  · rename_i hnot
    exact max_eq_left (not_lt.mp hnot)

omit [DecidableEq M] in
lemma booked_spec (h : booked o result tradingDate = some trade) :
    trade.memberId = o.memberId ∧ trade.symbol = o.symbol ∧ trade.side = o.side ∧
      trade.price = o.price ∧ trade.quantity = bookedQty result := by
  rw [booked] at h
  split at h
  · rename_i hpos
    obtain rfl := Option.some.inj h
    exact ⟨rfl, rfl, rfl, rfl, (max_eq_right hpos.le).symm⟩
  · cases h

/-- The booking pays what was due. -/
lemma payment_of_booked [Field P] (h : booked o result tradingDate = some trade) :
    trade.payment memberId = duePayment memberId (o, result) := by
  obtain ⟨hmember, -, hside, hprice, hquantity⟩ := booked_spec h
  rw [BookedTrade.payment, duePayment, MemberOrder.unitPayment, hmember, hside, hprice, hquantity]
  split
  · cases o.side with
    | buy => simp only [neg_mul, mul_comm]
    | sell => simp only [mul_comm]
  · rw [zero_mul]

lemma delivery_of_booked (h : booked o result tradingDate = some trade) (symbol : List Char) :
    trade.delivery memberId symbol = dueDelivery memberId symbol (o, result) := by
  obtain ⟨hmember, hsymbol, hside, -, hquantity⟩ := booked_spec h
  rw [BookedTrade.delivery, dueDelivery, MemberOrder.unitDelivery, hmember, hside, hsymbol,
    hquantity]
  split
  · cases o.side with
    | buy => rw [one_mul]
    | sell => rw [neg_mul, one_mul]
  · rw [zero_mul]

end

/-! ### The trades of a submission -/

section

variable [DecidableEq M] {owners : Table ℕ (M × List Char)} {memberId : M} {symbol : List Char}
  {incoming : Dashboard.Order P} {e : Dashboard.Entry P} {t : Dashboard.Trade P}
  {ts : List (Dashboard.Trade P)}

omit [DecidableEq M] in
/-- A trade of two orders that no member owns. -/
lemma owners_of_isWith (ht : t.IsWith incoming e) (hincoming : owners incoming.orderId = none)
    (he : owners e.orderId = none) :
    owners t.buyOrderId = none ∧ owners t.sellOrderId = none := by
  rw [ht.buyOrderId, ht.sellOrderId]
  split
  · exact ⟨hincoming, he⟩
  · exact ⟨he, hincoming⟩

lemma tradePayment_of_none [Field P] (hbuy : owners t.buyOrderId = none)
    (hsell : owners t.sellOrderId = none) : tradePayment owners memberId t = 0 := by
  simp [tradePayment, hbuy, hsell]

lemma tradeDelivery_of_none (hbuy : owners t.buyOrderId = none)
    (hsell : owners t.sellOrderId = none) : tradeDelivery owners memberId symbol t = 0 := by
  simp [tradeDelivery, hbuy, hsell]

variable {o : MemberOrder M P}

/-- A trade of an order of a member at its limit, with an order that no member owns. -/
lemma tradePayment_of_fair [Field P] (ht : t.IsWith incoming e) (hside : incoming.side = o.side)
    (hprice : e.price = o.price)
    (hincoming : owners incoming.orderId = some (o.memberId, o.symbol))
    (he : owners e.orderId = none) :
    tradePayment owners memberId t = o.unitPayment memberId * (t.quantity : P) := by
  rw [tradePayment, MemberOrder.unitPayment, ht.price, ht.buyOrderId, ht.sellOrderId, hside, hprice]
  cases o.side with
  | buy =>
    simp only [if_true, hincoming, he, Option.map_some, Option.map_none, reduceCtorEq, if_false,
      Option.some.injEq]
    split
    · rw [zero_sub, neg_mul, mul_comm]
    · rw [zero_mul, sub_zero]
  | sell =>
    simp only [reduceCtorEq, if_false, hincoming, he, Option.map_some, Option.map_none,
      Option.some.injEq]
    split
    · rw [sub_zero, mul_comm]
    · rw [zero_mul, sub_zero]

lemma tradeDelivery_of_fair (ht : t.IsWith incoming e) (hside : incoming.side = o.side)
    (hincoming : owners incoming.orderId = some (o.memberId, o.symbol))
    (he : owners e.orderId = none) :
    tradeDelivery owners memberId symbol t = o.unitDelivery memberId symbol * t.quantity := by
  rw [tradeDelivery, MemberOrder.unitDelivery, ht.buyOrderId, ht.sellOrderId, hside]
  cases o.side with
  | buy =>
    simp only [if_true, hincoming, he, reduceCtorEq, if_false, Option.some.injEq, Prod.mk.injEq]
    split
    · rw [sub_zero, one_mul]
    · rw [zero_mul, sub_zero]
  | sell =>
    simp only [reduceCtorEq, if_false, hincoming, he, Option.some.injEq, Prod.mk.injEq]
    split
    · rw [zero_sub, neg_mul, one_mul]
    · rw [zero_mul, sub_zero]

omit [DecidableEq M] in
/-- At one price for each unit the trades pay for all that they add up to. -/
lemma balance_unitPayment [Field P] (unit : P) :
    Tally.balance (fun t => unit * (t.quantity : P)) ts
      = unit * ((ts.map Dashboard.Trade.quantity).sum : ℤ) := by
  rw [Tally.balance, List.sum_map_mul_left, Int.cast_list_sum, List.map_map]
  rfl

/-- What a new order executes is what its trades add up to. -/
lemma executed_new {m : MatchingEngine P} (hbelow : m.TradesBelow)
    (hts : ∀ t ∈ ts, ∃ e, t.IsWith incoming e) (hid : incoming.orderId = m.nextOrderId) :
    Dashboard.executed (m.trades ++ ts) m.nextOrderId
      = (ts.map Dashboard.Trade.quantity).sum := by
  have hold : Dashboard.executed m.trades m.nextOrderId = 0 :=
    MatchingEngine.executed_eq_zero fun t ht => ⟨(hbelow t ht).1.ne, (hbelow t ht).2.ne⟩
  have hnew : Tally.balance (Dashboard.Trade.executed m.nextOrderId) ts
      = Tally.balance Dashboard.Trade.quantity ts := by
    refine Tally.balance_congr fun t ht => if_pos ?_
    obtain ⟨e, hwith⟩ := hts t ht
    rw [hwith.buyOrderId, hwith.sellOrderId, hid]
    split
    · exact .inl rfl
    · exact .inr rfl
  rw [Dashboard.executed] at hold ⊢
  rw [Tally.balance_append, hold, hnew, zero_add]
  rfl

omit [DecidableEq M] in
/-- Where the entries have no negative quantity in all, what is booked is what has been filled. -/
lemma bookedQty_of_answered [LinearOrder P] {m m' : MatchingEngine P} {symbolIdx : ℕ}
    {result : Dashboard.Order P} (h : m.Answered symbolIdx o.submission m' result)
    (hnonneg : 0 ≤ openQty (m.counterparties (o.submission.order symbolIdx m.nextOrderId))) :
    bookedQty result = result.quantity - result.remainingQty := by
  have hquantity : result.quantity = o.quantity := h.quantity
  have hfilled_nonneg : 0 ≤ result.quantity - result.remainingQty := by
    rcases le_or_gt o.quantity 0 with hle | hpos
    · rw [hquantity, h.unfilled hle]
      exact (sub_self _).ge
    · rw [hquantity, h.filled hpos, sub_nonneg]
      exact max_le hpos.le (sub_le_self _ hnonneg)
  have hsame : filledQty result = result.quantity - result.remainingQty := by
    rw [filledQty]
    cases h.answer with
    | rests hpos hopen hmem hmarked hfilled =>
      split
      · rfl
      · rename_i hnew
        have hnone : result.remainingQty = o.quantity :=
          hmarked.resolve_right fun h => hnew (.inr h)
        rw [hnone, hquantity, sub_self]
    | filled hzero hstatus hgone hfilled => exact if_pos (.inl hstatus)
    | left hne hgone hleft =>
      have hneg : o.quantity ≤ 0 := by
        by_contra hpos
        refine hleft ⟨(not_le.mp hpos).le, fun _ => .inl ⟨?_, ?_, ?_⟩⟩ <;>
          simp [MemberOrder.submission]
      rw [hquantity, h.unfilled hneg]
      split
      · rfl
      · exact (sub_self _).symm
  rw [bookedQty, hsame, max_eq_right hfilled_nonneg]

omit [DecidableEq M] in
/-- That is what its trades add up to. -/
lemma bookedQty_eq_sum [LinearOrder P] {m m' : MatchingEngine P} {symbolIdx : ℕ}
    {result : Dashboard.Order P} (h : m.Answered symbolIdx o.submission m' result)
    (hbelow : m.TradesBelow) (hid : result.orderId = m.nextOrderId)
    (htrades : m'.trades = m.trades ++ ts)
    (hts : ∀ t ∈ ts, ∃ e, t.IsWith (o.submission.order symbolIdx m.nextOrderId) e)
    (hnonneg : 0 ≤ openQty (m.counterparties (o.submission.order symbolIdx m.nextOrderId))) :
    bookedQty result = (ts.map Dashboard.Trade.quantity).sum := by
  have hexecuted : Dashboard.executed m'.trades m.nextOrderId
      = (ts.map Dashboard.Trade.quantity).sum := by
    rw [htrades]
    exact executed_new hbelow hts rfl
  rw [bookedQty_of_answered h hnonneg, ← hexecuted, ← hid]
  exact h.accounted

end

/-! ### The invariant -/

/-- With what is still to be booked, each member has what the trades make of what it began with. -/
structure Services.Balanced [DecidableEq M] [Field P] [LinearOrder P]
    (opening : Database M (List Char) D P) (s : Services M D P) : Prop where
  inStep : s.engine.InStep
  below : s.engine.TradesBelow
  owned : ∀ id, s.engine.nextOrderId ≤ id → s.owners id = none
  members : ∀ memberId, (s.db.members memberId).isSome = (opening.members memberId).isSome
  capital : ∀ memberId capital, opening.members memberId = some capital →
    ∃ c, s.db.members memberId = some c ∧ c + Tally.balance (duePayment memberId) s.answers
      = capital + Tally.balance (tradePayment s.owners memberId) s.engine.trades
  held : ∀ memberId, (opening.members memberId).isSome = true → ∀ symbol,
    s.db.held memberId symbol + Tally.balance (dueDelivery memberId symbol) s.answers
      = opening.held memberId symbol
        + Tally.balance (tradeDelivery s.owners memberId symbol) s.engine.trades

namespace Services

variable [DecidableEq M] [Field P] [LinearOrder P] {opening : Database M (List Char) D P}
  {s : Services M D P}

lemma Balanced.settled (h : s.Balanced opening) (hanswers : s.answers = []) :
    s.Settled opening := by
  constructor
  · intro memberId capital hopening
    obtain ⟨c, hc, hbalance⟩ := h.capital memberId capital hopening
    rw [hanswers, Tally.balance_nil, add_zero] at hbalance
    rw [hc, hbalance]
  · intro memberId hopening symbol
    have hbalance := h.held memberId hopening symbol
    rwa [hanswers, Tally.balance_nil, add_zero] at hbalance

/-- The engine makes trades, and answers come that are due as much. -/
lemma Balanced.extend (h : s.Balanced opening) {engine : MatchingEngine P}
    {answers : List (MemberOrder M P × Dashboard.Order P)} {owners : Table ℕ (M × List Char)}
    {ts : List (Dashboard.Trade P)} (hinStep : engine.InStep) (hbelow : engine.TradesBelow)
    (howned : ∀ id, engine.nextOrderId ≤ id → owners id = none)
    (hagree : ∀ id < s.engine.nextOrderId, owners id = s.owners id)
    (htrades : engine.trades = s.engine.trades ++ ts)
    (hpayment : ∀ memberId, Tally.balance (tradePayment owners memberId) ts
      = Tally.balance (duePayment memberId) answers)
    (hdelivery : ∀ memberId symbol, Tally.balance (tradeDelivery owners memberId symbol) ts
      = Tally.balance (dueDelivery memberId symbol) answers) :
    Balanced opening { s with engine, answers := s.answers ++ answers, owners } := by
  refine ⟨hinStep, hbelow, howned, h.members, fun memberId capital hopening => ?_,
    fun memberId hopening symbol => ?_⟩
  · obtain ⟨c, hc, hbalance⟩ := h.capital memberId capital hopening
    refine ⟨c, hc, ?_⟩
    have hold : Tally.balance (tradePayment owners memberId) s.engine.trades
        = Tally.balance (tradePayment s.owners memberId) s.engine.trades := by
      refine Tally.balance_congr fun t ht => ?_
      obtain ⟨hbuy, hsell⟩ := h.below t ht
      rw [tradePayment, tradePayment, hagree _ hbuy, hagree _ hsell]
    dsimp only
    rw [htrades, Tally.balance_append, Tally.balance_append, hold, hpayment, ← add_assoc, hbalance,
      add_assoc]
  · have hbalance := h.held memberId hopening symbol
    have hold : Tally.balance (tradeDelivery owners memberId symbol) s.engine.trades
        = Tally.balance (tradeDelivery s.owners memberId symbol) s.engine.trades := by
      refine Tally.balance_congr fun t ht => ?_
      obtain ⟨hbuy, hsell⟩ := h.below t ht
      rw [tradeDelivery, tradeDelivery, hagree _ hbuy, hagree _ hsell]
    dsimp only
    rw [htrades, Tally.balance_append, Tally.balance_append, hold, hdelivery, ← add_assoc, hbalance,
      add_assoc]

/-! ### Steps -/

variable {symbols : List (ℕ × List Char)} {o : MemberOrder M P}

/-- An order of a member that trades fairly is due what its trades pay and bring. -/
lemma Balanced.submit (h : s.Balanced opening) (hfair : s.FairOrder symbols o) :
    (s.submit symbols o).Balanced opening := by
  rw [Services.submit]
  cases hsymbol : symbolNamed symbols o.symbol with
  | none => exact h
  | some symbolIdx =>
    simp only [MatchingEngine.handle_submit (Dashboard.mem_of_symbolNamed hsymbol)]
    obtain ⟨hparties, hnonneg⟩ := hfair symbolIdx hsymbol
    have hanswered := MatchingEngine.submitOrder_answered h.inStep h.below symbolIdx o.submission
    have hinStep := h.inStep.submitOrder symbolIdx o.submission
    have hid := s.engine.orderId_submitOrder symbolIdx o.submission
    have hnext := (s.engine.submitOrder_frame symbolIdx o.submission).1
    obtain ⟨ts, htrades, hts⟩ := hanswered.trades
    set result := (s.engine.submitOrder symbolIdx o.submission).2
    set engine := (s.engine.submitOrder symbolIdx o.submission).1
    set incoming := o.submission.order symbolIdx s.engine.nextOrderId with hincoming
    set owners := s.owners.replace result.orderId (o.memberId, o.symbol) with howners
    have hself : owners incoming.orderId = some (o.memberId, o.symbol) := by
      rw [howners, hid]
      exact Table.replace_self
    have hother : ∀ id, id ≠ s.engine.nextOrderId → owners id = s.owners id := by
      intro id hne
      rw [howners]
      exact Table.replace_of_ne (hid.symm ▸ hne)
    have hentry : ∀ e ∈ s.engine.counterparties incoming, owners e.orderId = none := by
      intro e he
      rw [hother _ (h.inStep.lt_of_mem_counterparties he).ne]
      exact (hparties e he).2
    have hquantity : bookedQty result = (ts.map Dashboard.Trade.quantity).sum :=
      bookedQty_eq_sum hanswered h.below hid htrades
        (fun t ht => (hts t ht).imp fun e he => he.2) hnonneg
    refine h.extend hinStep hanswered.below (fun id hle => ?_) (fun id hlt => hother id hlt.ne)
      htrades (fun memberId => ?_) fun memberId symbol => ?_
    · rw [hnext] at hle
      rw [hother id (Nat.lt_of_succ_le hle).ne']
      exact h.owned id ((Nat.le_succ _).trans hle)
    · have hall : ∀ t ∈ ts, tradePayment owners memberId t
          = o.unitPayment memberId * (t.quantity : P) := by
        intro t ht
        obtain ⟨e, he, hwith⟩ := hts t ht
        exact tradePayment_of_fair hwith rfl (hparties e he).1 hself (hentry e he)
      rw [Tally.balance_congr hall, balance_unitPayment, ← hquantity]
      exact (add_zero _).symm
    · have hall : ∀ t ∈ ts, tradeDelivery owners memberId symbol t
          = o.unitDelivery memberId symbol * t.quantity := by
        intro t ht
        obtain ⟨e, he, hwith⟩ := hts t ht
        exact tradeDelivery_of_fair hwith rfl hself (hentry e he)
      rw [Tally.balance_congr hall, Tally.balance, List.sum_map_mul_left, ← hquantity]
      exact (add_zero _).symm

/-- A request of another participant that trades with no order of a member. -/
lemma Balanced.other (h : s.Balanced opening) (request : Request P)
    (hfair : ∀ symbolIdx r, request = .submit symbolIdx r → symbolIdx ∈ symbols.map Prod.fst →
      ∀ e ∈ s.engine.counterparties (r.order symbolIdx s.engine.nextOrderId),
        s.owners e.orderId = none) :
    Balanced opening
      { s with engine := (s.engine.handle (symbols.map Prod.fst) request).1 } := by
  have hinStep := h.inStep.handle (symbols.map Prod.fst) request
  obtain ⟨hnext, hbelow⟩ := h.below.handle h.inStep (symbols.map Prod.fst) request
  obtain ⟨ts, htrades, hts⟩ :=
    MatchingEngine.exists_trades_handle h.inStep h.below (symbols.map Prod.fst) request
  have hparties : ∀ t ∈ ts, s.owners t.buyOrderId = none ∧ s.owners t.sellOrderId = none := by
    intro t ht
    obtain ⟨symbolIdx, r, hrequest, hknown, e, he, hwith⟩ := hts t ht
    exact owners_of_isWith hwith (h.owned _ le_rfl) (hfair symbolIdx r hrequest hknown e he)
  have hpayment : ∀ memberId, Tally.balance (tradePayment s.owners memberId) ts
      = Tally.balance (duePayment memberId) ([] : List (MemberOrder M P × Dashboard.Order P)) :=
    fun memberId => Tally.balance_eq_zero fun t ht =>
      tradePayment_of_none (hparties t ht).1 (hparties t ht).2
  have hdelivery : ∀ memberId symbol, Tally.balance (tradeDelivery s.owners memberId symbol) ts
      = Tally.balance (dueDelivery memberId symbol)
        ([] : List (MemberOrder M P × Dashboard.Order P)) :=
    fun memberId symbol => Tally.balance_eq_zero fun t ht =>
      tradeDelivery_of_none (hparties t ht).1 (hparties t ht).2
  have hextended := h.extend hinStep hbelow (fun id hle => h.owned id (hnext.trans hle))
    (fun _ _ => rfl) htrades hpayment hdelivery
  rwa [List.append_nil] at hextended

/-- An answer is booked, and nothing is due for it any more. -/
lemma Balanced.book [DecidableEq D] (h : s.Balanced opening) {n : ℕ} {tradingDate : D}
    (hheld : ∀ a ∈ s.answers[n]?, ∀ trade ∈ booked a.1 a.2 tradingDate, s.db.Covers trade) :
    (s.book n tradingDate).Balanced opening := by
  rw [Services.book]
  cases ha : s.answers[n]? with
  | none => exact h
  | some a =>
    obtain ⟨o, result⟩ := a
    have hpayment (memberId : M) := Tally.balance_eraseIdx (duePayment memberId) ha
    have hdelivery (memberId : M) (symbol : List Char) :=
      Tally.balance_eraseIdx (dueDelivery memberId symbol) ha
    dsimp only
    cases hbooked : booked o result tradingDate with
    | none =>
      have hnothing : bookedQty result = 0 := bookedQty_of_none hbooked
      refine ⟨h.inStep, h.below, h.owned, h.members, fun memberId capital hopening => ?_,
        fun memberId hopening symbol => ?_⟩
      · obtain ⟨c, hc, hbalance⟩ := h.capital memberId capital hopening
        refine ⟨c, hc, ?_⟩
        rwa [hpayment, duePayment, hnothing, Int.cast_zero, mul_zero, zero_add] at hbalance
      · have hbalance := h.held memberId hopening symbol
        rwa [hdelivery, dueDelivery, hnothing, mul_zero, zero_add] at hbalance
    | some trade =>
      have hcovers : s.db.Covers trade := hheld _ ha trade hbooked
      refine ⟨h.inStep, h.below, h.owned, fun memberId => ?_, fun memberId capital hopening => ?_,
        fun memberId hopening symbol => ?_⟩
      · exact Database.isSome_members_recordTrade.trans (h.members memberId)
      · obtain ⟨c, hc, hbalance⟩ := h.capital memberId capital hopening
        refine ⟨c + trade.payment memberId, ?_, ?_⟩
        · exact (hcovers.members (by rw [hc]; rfl)).trans (by rw [hc]; rfl)
        · rwa [hpayment, ← payment_of_booked hbooked, ← add_assoc] at hbalance
      · have hbalance := h.held memberId hopening symbol
        have hdue := hcovers.delivery_le ((h.members memberId).trans hopening) symbol
        have hafter : (s.db.recordTrade trade).held memberId symbol
            = s.db.held memberId symbol + trade.delivery memberId symbol :=
          Database.recordTrade_held.trans (max_eq_right hdue)
        show (s.db.recordTrade trade).held memberId symbol + _ = _
        rwa [hdelivery, ← delivery_of_booked hbooked, ← add_assoc, ← hafter] at hbalance

lemma Balanced.next [DecidableEq D] (h : s.Balanced opening) {happening : Happening M D P}
    (hheld : s.SellsHeld happening) (hfair : s.Fair symbols happening) :
    (s.next symbols happening).1.Balanced opening := by
  cases happening with
  | ai o => exact h.submit hfair
  | human o =>
    rw [Services.next]
    split
    · rename_i hpermits
      exact h.submit (hfair hpermits)
    · exact h
  | answered n tradingDate => exact h.book hheld
  | other request =>
    refine h.other request fun symbolIdx r hrequest => ?_
    subst hrequest
    exact hfair

end Services

section

variable [DecidableEq M] [DecidableEq D] [Field P] [LinearOrder P]

/-- In every run of a new engine in which what is sold is held, and no trade is one that the
clearing house would not learn of or would book at another price, each member has what the trades
make of what it began with whenever all answers have come back. -/
theorem run_settled (symbols : List (ℕ × List Char)) (opening : Database M (List Char) D P)
    (happenings : List (Happening M D P))
    (hheld : Machine.Along (Services.next symbols) Services.SellsHeld { db := opening } happenings)
    (hfair : Machine.Along (Services.next symbols) (Services.Fair symbols) { db := opening }
      happenings) :
    Machine.Throughout (Services.next symbols) (fun s => s.answers = [] → s.Settled opening)
      { db := opening } happenings := by
  have hstart : Services.Balanced opening { db := opening } := by
    refine ⟨.empty, by simp [MatchingEngine.TradesBelow], fun _ _ => rfl, fun _ => rfl,
      fun memberId capital hopening => ⟨capital, hopening, rfl⟩, fun _ _ _ => rfl⟩
  have hkept := Machine.throughout_of_along (P := Services.Balanced opening)
    (fun s happening hboth h => h.next hboth.1 hboth.2) (hheld.and hfair) hstart
  exact hkept.mono fun s h => h.settled

end

/-- A member with 1000. -/
def loneMember : Database ℕ (List Char) ℕ ℚ := Database.initDb [(0, 1000)]

/-- The member buys 4 that are offered at its limit, and sells 3 of them to a bid. -/
def boughtAndSold : List (Happening ℕ ℕ ℚ) :=
  [.other (.submit 1 ⟨.sell, .limit, 100, 4, .day, []⟩),
    .ai ⟨0, ['X'], .buy, 4, 100, ['A']⟩, .answered 0 0,
    .other (.submit 1 ⟨.buy, .limit, 110, 3, .day, []⟩),
    .human ⟨0, ['X'], .sell, 3, 110, ['B']⟩, .answered 0 0]

theorem settled_boughtAndSold : Machine.Throughout (Services.next [(1, ['X'])])
    (fun s => s.answers = [] → s.Settled loneMember) { db := loneMember } boughtAndSold := by
  refine run_settled _ _ _ ?_ ?_ <;> decide +kernel

/-- A bid of the member that rests, and an offer that takes it. -/
def bidFilledLater : List (Happening ℕ ℕ ℚ) :=
  [.ai ⟨0, ['X'], .buy, 5, 100, ['A']⟩, .answered 0 0,
    .other (.submit 1 ⟨.sell, .limit, 100, 5, .day, []⟩)]

/-- The trade is not booked, and no answer is still to come. -/
theorem not_settled_bidFilledLater :
    Machine.Along (Services.next [(1, ['X'])]) Services.SellsHeld { db := loneMember }
        bidFilledLater ∧
      ¬Machine.Throughout (Services.next [(1, ['X'])])
        (fun s => s.answers = [] → s.Settled loneMember) { db := loneMember } bidFilledLater := by
  refine ⟨?_, fun h => ?_⟩
  · decide +kernel
  · have hheld := (h.2.2.2 (by decide +kernel)).held 0 (by decide +kernel) ['X']
    exact absurd hheld (by decide +kernel)

end EuNEx.Clearing
