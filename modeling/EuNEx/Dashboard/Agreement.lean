import EuNEx.Book.Informed
import EuNEx.Dashboard.InStep
import Mathlib.Algebra.BigOperators.Ring.Finset
import Mathlib.Data.Nat.Cast.Order.Ring
import Mathlib.Order.Hom.Basic

/-!
# The two matching engines

The engine of the dashboard and the C++ book on the same orders. The dashboard keeps flat lists
that are sorted again on every insertion, and a list of orders beside them; the book keeps price
levels and an index. Step by step they make the same trades, report the same statuses, accept the
same cancels and leave the same resting orders.
-/

namespace EuNEx

/-- The status last reported for an order. -/
def lastStatus (log : List BookEvent) (orderId : ℕ) : Option OrderStatus :=
  ((execs log).filter fun r => r.orderId = orderId).getLast?.map ExecutionReport.status

/-- Events without trades change nothing about the trades. -/
lemma trades_append_of_eq_nil {log evs : List BookEvent} (h : trades evs = []) :
    trades (log ++ evs) = trades log := by
  rw [trades_append, h, List.append_nil]

namespace Dashboard

variable {P : Type*}

/-! ### What is compared -/

def Event.order? : Event P → Option (Order P)
  | .order o => some o
  | _ => none

def Event.trade? : Event P → Option (Trade P)
  | .trade t => some t
  | _ => none

lemma filterMap_order?_map (trades : List (Trade P)) :
    (trades.map Event.trade).filterMap Event.order? = [] :=
  List.filterMap_eq_nil_iff.mpr (by simp [Event.order?])

lemma filterMap_trade?_map (trades : List (Trade P)) :
    (trades.map Event.trade).filterMap Event.trade? = trades := by
  rw [List.filterMap_map]
  exact List.filterMap_some

namespace MatchingEngine

variable (m : MatchingEngine P)

/-- The orders that have been broadcast. -/
def orderUpdates : List (Order P) := m.events.filterMap Event.order?

/-- The trades that have been broadcast. -/
def tradeUpdates : List (Trade P) := m.events.filterMap Event.trade?

/-- The status last broadcast for an order. -/
def lastStatus (orderId : ℕ) : Option OrderStatus :=
  (m.orderUpdates.filter fun o => o.orderId = orderId).getLast?.map Order.status

end MatchingEngine

/-- The ids of one submission: the dashboard counts from 1000, the book from 1. -/
def SameId (id orderId : ℕ) : Prop := ∃ i, id = 1000 + i ∧ orderId = 1 + i

section

variable [LinearOrder P] [Zero P] (e : P ↪o ℤ)

/-- The entry is the resting order. -/
structure Entry.Same (entry : Entry P) (o : EuNEx.Order) : Prop where
  orderId : SameId entry.orderId o.orderId
  price : e entry.price = o.price
  remainingQty : entry.remainingQty = o.remainingQty

structure Trade.Same (t : Trade P) (t' : EuNEx.Trade) : Prop where
  price : e t.price = t'.price
  quantity : t.quantity = t'.quantity
  buyOrderId : SameId t.buyOrderId t'.buyOrderId
  sellOrderId : SameId t.sellOrderId t'.sellOrderId

/-- The two engines agree, the book having logged these events. -/
structure Agree (symbolIdx : ℕ) (b : EuNEx.Book) (log : List BookEvent) (m : MatchingEngine P) :
    Prop where
  trades : List.Forall₂ (Trade.Same e) m.tradeUpdates (trades log)
  status : ∀ i, m.lastStatus (1000 + i) = lastStatus log (1 + i)
  cancels : ∀ i, (m.cancelOrder (1000 + i)).isSome = (b.cancelOrder (1 + i)).isSome
  resting : ∀ s, List.Forall₂ (Entry.Same e) (m.entries symbolIdx s) (b.resting s)

end

/-! ### Operations -/

/-- The arguments of `submit_order`, for an order that both engines take: it is no stop, and its
quantity is not negative. -/
structure CommonSubmission (P : Type*) extends Submission P where
  executable : orderType.isStop = false
  nonneg : 0 ≤ quantity

lemma CommonSubmission.quantity_eq (r : CommonSubmission P) : r.quantity = r.quantity.toNat :=
  (Int.toNat_of_nonneg r.nonneg).symm

/-- A new order, or a cancel of the order submitted `index`th. What the order of the book has and
the one of the dashboard has not is arbitrary. -/
inductive Op (P : Type*) where
  | submit (r : CommonSubmission P) (clOrdId sessionId : ℕ)
  | cancel (index : ℕ)

/-- The quantity that an operation brings in. -/
def Op.quantity : Op P → ℕ
  | .submit r _ _ => r.quantity.toNat
  | .cancel _ => 0

section

variable [LinearOrder P] [Zero P] (e : P ↪o ℤ)

/-- The order as it is passed to `newOrder`. -/
def CommonSubmission.toOrder (r : CommonSubmission P) (symbolIdx clOrdId sessionId : ℕ) :
    EuNEx.Order where
  orderId := 0
  clOrdId := clOrdId
  symbolIdx := symbolIdx
  side := r.side
  ordType := r.orderType
  tif := r.tif
  price := e r.price
  quantity := r.quantity.toNat
  remainingQty := 0
  sessionId := sessionId
  status := .new
  stopPrice := 0

/-- The operation on the book. -/
def Op.toBookOp (symbolIdx : ℕ) : Op P → BookOp
  | .submit r clOrdId sessionId => .newOrder (r.toOrder e symbolIdx clOrdId sessionId)
  | .cancel index => .cancelOrder (1 + index)

namespace MatchingEngine

/-- The operation on the engine of the dashboard. -/
def step (symbolIdx : ℕ) (m : MatchingEngine P) : Op P → MatchingEngine P
  | .submit r _ _ => (m.submitOrder symbolIdx r.toSubmission).1
  | .cancel index => ((m.cancelOrder (1000 + index)).map Prod.fst).getD m

/-- The engine after a sequence of operations. -/
def run (symbolIdx : ℕ) (ops : List (Op P)) : MatchingEngine P :=
  ops.foldl (step symbolIdx) {}

end MatchingEngine

end

/-! ### Prices and ids -/

lemma SameId.iff {id orderId id' orderId' : ℕ} (h : SameId id orderId)
    (h' : SameId id' orderId') : id = id' ↔ orderId = orderId' := by
  obtain ⟨i, rfl, rfl⟩ := h
  obtain ⟨j, rfl, rfl⟩ := h'
  omega

lemma SameId.succ {id orderId : ℕ} (h : SameId id orderId) : SameId (id + 1) (orderId + 1) := by
  obtain ⟨i, rfl, rfl⟩ := h
  exact ⟨i + 1, rfl, rfl⟩

variable [LinearOrder P] {e : P ↪o ℤ}

lemma keyLe_iff {s : Side} {p q : P} : KeyLe s p q ↔ ¬s.before (e q) (e p) := by
  cases s with
  | buy => exact (e.le_iff_le.symm.trans not_lt.symm)
  | sell => exact (e.le_iff_le.symm.trans not_lt.symm)

/-- The order in hand is the same in both engines. -/
structure Order.Same (e : P ↪o ℤ) (o : Order P) (o' : EuNEx.Order) : Prop where
  orderId : SameId o.orderId o'.orderId
  side : o.side = o'.side
  orderType : o.orderType = o'.ordType
  price : e o.price = o'.price
  quantity : o.quantity = o'.quantity
  remainingQty : o.remainingQty = o'.remainingQty
  tif : o.tif = o'.tif

lemma Order.Same.priceOk_iff {o : Order P} {o' : EuNEx.Order} (h : o.Same e o') {price : P} :
    o.priceOk price = true ↔ o'.Reaches o'.side.opposite (e price) := by
  rw [priceOk, Bool.or_eq_true, decide_eq_true_eq, h.orderType, h.side, EuNEx.Order.Reaches,
    ← h.price, or_iff_not_imp_left]
  apply imp_congr_right
  intro _
  cases o'.side with
  | buy => exact decide_eq_true_iff.trans (e.le_iff_le.symm.trans not_lt.symm)
  | sell => exact decide_eq_true_iff.trans (e.le_iff_le.symm.trans not_lt.symm)

/-! ### The fill loops -/

/-- The broadcast order is what the report is about. -/
structure Order.Told (o : Order P) (r : ExecutionReport) : Prop where
  orderId : SameId o.orderId r.orderId
  status : o.status = r.status

/-- Neither loop is ahead: `log` is all that the book has logged, `o` the order that it fills, `k`
the loop of the dashboard, and `ids` the orders that its list knows. -/
structure InLoop (e : P ↪o ℤ) (side : Side) (ids : List ℕ) (log : List BookEvent)
    (o : EuNEx.Order) (k : Match P) : Prop where
  incoming : k.incoming.Same e o
  side : o.side = side
  le : o.remainingQty ≤ o.quantity
  status : 0 < o.remainingQty → k.incoming.status
    = if o.remainingQty < o.quantity then .partiallyFilled else .new
  trades : List.Forall₂ (Trade.Same e) k.trades (trades log)
  emitted : k.tradeUpdates ++ k.matched = k.trades
  reports : List.Forall₂ Order.Told k.orderUpdates (execs log)
  known : k.orders.map Order.orderId = ids

/-- The entry and the resting order that a turn of the loops is about. -/
structure Facing (e : P ↪o ℤ) (ids : List ℕ) (entry : Entry P) (o : EuNEx.Order) : Prop where
  same : entry.Same e o
  pos : 0 < o.remainingQty
  known : entry.orderId ∈ ids

section

variable {side : Side} {ids : List ℕ} {log hist : List BookEvent} {o : EuNEx.Order} {k : Match P}
  {o' : EuNEx.Order} {m m' : Matching} {entry : Entry P}

lemma fillLoop_trade (side : Side) (b : EuNEx.Book) (incoming o : EuNEx.Order) (p : ℤ)
    (traded : ℕ) :
    (side.fillLoop.trade b incoming o p traded).price = p ∧
      (side.fillLoop.trade b incoming o p traded).quantity = traded ∧
      (side.fillLoop.trade b incoming o p traded).buyOrderId
        = (if side = .buy then incoming.orderId else o.orderId) ∧
      (side.fillLoop.trade b incoming o p traded).sellOrderId
        = if side = .buy then o.orderId else incoming.orderId := by
  cases side <;> exact ⟨rfl, rfl, rfl, rfl⟩

omit [LinearOrder P] in
/-- A fill broadcasts the order behind the entry. -/
lemma fill_events (hknown : entry.orderId ∈ k.orders.map Order.orderId) :
    ∃ o' : Order P, (k.fill entry).1.events = k.events ++ [.order o'] ∧
      o'.orderId = entry.orderId ∧
      o'.status = if entry.remainingQty - min k.incoming.remainingQty entry.remainingQty = 0
        then .filled else .partiallyFilled := by
  set left := k.left entry
  obtain ⟨o, ho, hid⟩ := List.mem_map.mp hknown
  have hsome : (k.orders.findSome? left.filled).isSome = true := by
    rw [List.findSome?_isSome_iff]
    have hid' : o.orderId = left.orderId := hid
    exact ⟨o, ho, by simp [Entry.filled, hid']⟩
  obtain ⟨o', ho'⟩ := Option.isSome_iff_exists.mp hsome
  obtain ⟨a, -, ha⟩ := List.exists_of_findSome?_eq_some ho'
  rw [Entry.filled] at ha
  split at ha
  · rename_i heq
    refine ⟨o', ?_, ?_, ?_⟩
    · show k.events ++ (k.orders.findSome? left.filled).toList.map .order = _
      rw [ho']
      rfl
    · rw [← Option.some.inj ha]
      exact heq
    · rw [← Option.some.inj ha]
      rfl
  · cases ha

/-- A fill makes the trade of the turn. -/
lemma InLoop.fill_trades {traded : ℕ} (h : InLoop e side ids log o' k)
    (hsame : Entry.Same e entry o)
    (hqty : min k.incoming.remainingQty entry.remainingQty = traded) (b : EuNEx.Book) :
    ∃ t : Trade P, (k.fill entry).1.trades = k.trades ++ [t] ∧
      (k.fill entry).1.matched = k.matched ++ [t] ∧
      t.Same e (side.fillLoop.trade b o' o o.price traded) := by
  obtain ⟨hprice, hquantity, hbuy, hsell⟩ := fillLoop_trade side b o' o o.price traded
  have hside : k.incoming.side = side := h.incoming.side.trans h.side
  refine ⟨_, rfl, rfl, ?_, ?_, ?_, ?_⟩
  · exact hsame.price.trans hprice.symm
  · exact hqty.trans (congrArg Nat.cast hquantity.symm)
  · rw [hbuy]
    show SameId (if k.incoming.side = .buy then k.incoming.orderId else entry.orderId) _
    rw [hside]
    split
    · exact h.incoming.orderId
    · exact hsame.orderId
  · rw [hsell]
    show SameId (if k.incoming.side = .buy then entry.orderId else k.incoming.orderId) _
    rw [hside]
    split
    · exact hsame.orderId
    · exact h.incoming.orderId

/-- The fill of the dashboard follows the turn of the book. -/
lemma InLoop.fill {left : Option EuNEx.Order} {traded : ℕ}
    (h : InLoop e side ids (hist ++ m.log) m.incoming k) (hfacing : Facing e ids entry o)
    (ht : side.fillLoop.Turn o.price m m' o left traded) :
    InLoop e side ids (hist ++ m'.log) m'.incoming (k.fill entry).1 ∧
      Option.Rel (Facing e ids) (k.fill entry).2 left := by
  have hqty : min k.incoming.remainingQty entry.remainingQty = traded := by
    rw [ht.qty_eq, h.incoming.remainingQty, hfacing.same.remainingQty, Nat.cast_min]
  have hrest : ((m.incoming.remainingQty - traded : ℕ) : ℤ)
      = m.incoming.remainingQty - (traded : ℤ) :=
    Nat.cast_sub (ht.qty_eq.le.trans (min_le_left _ _))
  have hleft : ((o.remainingQty - traded : ℕ) : ℤ) = o.remainingQty - (traded : ℤ) :=
    Nat.cast_sub (ht.qty_eq.le.trans (min_le_right _ _))
  have hpos : 0 < traded := by
    rw [ht.qty_eq]
    exact lt_min (Nat.pos_of_ne_zero ht.open') hfacing.pos
  have hopen := ht.open'
  have hreports : side.fillLoop.reportsIncoming = false := by cases side <;> rfl
  obtain ⟨t, htrades, hmatched, htrade⟩ := h.fill_trades hfacing.same hqty m.book
  have hlog := ht.log
  rw [hreports, if_neg Bool.false_ne_true, List.append_nil] at hlog
  obtain ⟨o', hevents, hid, hstatus⟩ := fill_events (h.known ▸ hfacing.known)
  rw [hqty, hfacing.same.remainingQty, ← hleft] at hstatus
  constructor
  · rw [hlog, ht.incoming, ← List.append_assoc]
    constructor
    case incoming =>
      refine { h.incoming with remainingQty := ?_ }
      show k.incoming.remainingQty - min _ _ = _
      rw [hqty, h.incoming.remainingQty, ← hrest]
    case side => exact h.side
    case le => exact (Nat.sub_le _ _).trans h.le
    case status =>
      intro hrem
      show (if 0 < k.incoming.remainingQty - min _ _ then _ else _) = _
      rw [hqty, h.incoming.remainingQty, ← hrest, if_pos (Nat.cast_pos.mpr hrem), if_pos]
      exact (Nat.sub_lt (Nat.pos_of_ne_zero hopen) hpos).trans_le h.le
    case trades =>
      rw [trades_append, htrades]
      exact List.rel_append h.trades (.cons htrade .nil)
    case emitted =>
      have hupdates : (k.fill entry).1.tradeUpdates = k.tradeUpdates := by
        simp [MatchingEngine.tradeUpdates, hevents, Event.trade?]
      rw [hupdates, hmatched, htrades, ← h.emitted, List.append_assoc]
    case reports =>
      have hupdates : (k.fill entry).1.orderUpdates = k.orderUpdates ++ [o'] := by
        simp [MatchingEngine.orderUpdates, hevents, Event.order?]
      rw [hupdates, execs_append]
      refine List.rel_append h.reports (.cons ⟨hid ▸ hfacing.same.orderId, ?_⟩ .nil)
      exact hstatus.trans (if_congr Nat.cast_eq_zero rfl rfl)
    case known => exact (Match.fill_frame k entry).ids.trans h.known
  · rw [ht.left]
    have hremains : (k.left entry).remainingQty = (Ledger.fill o traded).remainingQty := by
      show entry.remainingQty - min _ _ = _
      rw [hqty, hfacing.same.remainingQty, ← hleft]
    show Option.Rel _ (if (k.left entry).remainingQty = 0 then none else some (k.left entry)) _
    rw [hremains]
    simp only [Nat.cast_eq_zero]
    split
    · exact .none
    · rename_i hopen
      exact .some ⟨⟨hfacing.same.orderId, hfacing.same.price, hremains⟩, Nat.pos_of_ne_zero hopen,
        hfacing.known⟩

/-- One turn of both loops. -/
lemma InLoop.visit (h : InLoop e side ids (hist ++ m.log) m.incoming k)
    (hfacing : Facing e ids entry o) :
    Option.Rel (fun r r' => InLoop e side ids (hist ++ r'.1.log) r'.1.incoming r.1 ∧
        Option.Rel (Facing e ids) r.2 r'.2)
      (k.visit entry) (side.fillLoop.next side.opposite m o) := by
  have hok : k.incoming.priceOk entry.price = true ↔ m.incoming.Reaches side.opposite o.price := by
    rw [h.incoming.priceOk_iff, h.side, hfacing.same.price]
  rw [Match.visit, FillLoop.next]
  by_cases hreach : m.incoming.Reaches side.opposite o.price
  · rw [if_pos hreach]
    cases hv : side.fillLoop.visit o.price m o with
    | none =>
      have hz : k.incoming.remainingQty = 0 :=
        h.incoming.remainingQty.trans (Nat.cast_eq_zero.mpr (FillLoop.visit_eq_none.mp hv))
      rw [if_pos (Or.inl hz.le)]
      exact .none
    | some r =>
      obtain ⟨m', left⟩ := r
      have ht := FillLoop.turn_of_visit hv
      have hgo : ¬(k.incoming.remainingQty ≤ 0 ∨ k.incoming.priceOk entry.price = false) := by
        rw [h.incoming.remainingQty, hok.mpr hreach]
        simpa [Nat.pos_iff_ne_zero] using ht.open'
      rw [if_neg hgo]
      exact .some (h.fill hfacing ht)
  · rw [if_neg hreach, if_pos (Or.inr (Bool.eq_false_iff.mpr (mt hok.mp hreach)))]
    exact .none

end

/-! ### What becomes of the order -/

/-- The order in hand is settled, but not broadcast yet. -/
structure Settled (e : P ↪o ℤ) (symbolIdx : ℕ) (k : Match P) (b : EuNEx.Book)
    (log : List BookEvent) : Prop where
  trades : List.Forall₂ (Trade.Same e) k.trades (trades log)
  emitted : k.tradeUpdates ++ k.matched = k.trades
  reports : List.Forall₂ Order.Told (k.orderUpdates ++ [k.incoming]) (execs log)
  resting : ∀ s, List.Forall₂ (Entry.Same e) (k.entries symbolIdx s) (b.resting s)

section

variable {side : Side} {ids : List ℕ} {hist : List BookEvent} {symbolIdx : ℕ} {k : Match P}
  {m : Matching} {b : EuNEx.Book} {l : MatchingEngine P}

/-- Both engines put the order to rest at the same place. -/
lemma resting_insertResting {o : Order P} {o' : EuNEx.Order} (hsame : o.Same e o')
    (hresting : ∀ s, List.Forall₂ (Entry.Same e) (l.entries o.symbolIdx s) (b.resting s))
    (hOK : (b.levels o'.side).OK) (hsorted : (l.entries o.symbolIdx o.side).Pairwise
      (Entry.Le o.side)) (s : Side) :
    List.Forall₂ (Entry.Same e) ((l.insertResting o).entries o.symbolIdx s)
      ((b.insertResting o').resting s) := by
  revert s
  refine (Book.forall_sides (s := o'.side) (P := fun s => List.Forall₂ (Entry.Same e)
    ((l.insertResting o).entries o.symbolIdx s) ((b.insertResting o').resting s))).mpr ⟨?_, ?_⟩
  · rw [Book.resting_insertResting hOK, ← hsame.side, MatchingEngine.insertResting,
      MatchingEngine.entries_setEntries, Sorted.insertionSort_snoc hsorted]
    apply Sorted.forall₂_insertBehind
    · intro entry o₁ hentry
      rw [decide_eq_decide, ← hsame.price, ← hentry.price]
      exact keyLe_iff
    · exact ⟨hsame.orderId, hsame.price, hsame.remainingQty⟩
    · exact hresting _
  · rw [Book.resting_insertResting_opposite, MatchingEngine.insertResting,
      MatchingEngine.entries_setEntries_of_ne (Or.inr (hsame.side ▸ (Side.ne_opposite _).symm))]
    exact hresting _

/-- After the fill loops the order is cancelled, put to rest or done with in both engines. -/
lemma InLoop.settle (h : InLoop e side ids (hist ++ m.log) m.incoming k)
    (hresting : ∀ s, List.Forall₂ (Entry.Same e) (k.entries k.incoming.symbolIdx s)
      (m.book.resting s))
    (hfok : k.incoming.tif = .fok → m.incoming.remainingQty = 0)
    (hOK : (m.book.levels m.incoming.side).OK)
    (hsorted : (k.entries k.incoming.symbolIdx k.incoming.side).Pairwise
      (Entry.Le k.incoming.side)) :
    Settled e k.incoming.symbolIdx k.settle m.settle.book (hist ++ m.settle.log) := by
  have hin := h.incoming
  have htrades : ∀ evs, EuNEx.trades evs = [] →
      List.Forall₂ (Trade.Same e) k.trades (EuNEx.trades (hist ++ (m.log ++ evs))) := by
    intro evs hevs
    rw [← List.append_assoc, trades_append_of_eq_nil hevs]
    exact h.trades
  have hreports : ∀ (o : Order P) r evs, execs evs = [r] → o.Told r →
      List.Forall₂ Order.Told (k.orderUpdates ++ [o]) (execs (hist ++ (m.log ++ evs))) := by
    intro o r evs hevs htold
    rw [← List.append_assoc, execs_append, hevs]
    exact List.rel_append h.reports (.cons htold .nil)
  rw [Match.settle, Matching.settle]
  simp only
  by_cases hpos : 0 < m.incoming.remainingQty
  · have hstatus := h.status hpos
    have hgo : 0 < k.incoming.remainingQty ∧ k.incoming.status ≠ .cancelled ∧
        k.incoming.status ≠ .rejected := by
      rw [hin.remainingQty, hstatus]
      refine ⟨Nat.cast_pos.mpr hpos, ?_, ?_⟩ <;> split <;> decide
    rw [if_pos hpos, if_pos hgo, hin.orderType, hin.tif]
    by_cases hleave : m.incoming.ordType = .market ∨ m.incoming.tif = .ioc
    · rw [if_pos hleave, if_pos hleave]
      exact ⟨htrades _ rfl, h.emitted, hreports _ _ _ rfl ⟨hin.orderId, rfl⟩, hresting⟩
    · have hnot : ¬m.incoming.tif = .fok := fun htif => hpos.ne' (hfok (hin.tif.trans htif))
      rw [if_neg hleave, if_neg hleave, if_neg hnot]
      refine ⟨htrades _ rfl, h.emitted, hreports _ _ _ rfl ⟨hin.orderId, hstatus⟩, ?_⟩
      refine resting_insertResting ?_ hresting hOK hsorted
      exact ⟨hin.orderId, hin.side, hin.orderType, hin.price, hin.quantity, hin.remainingQty,
        hin.tif⟩
  · have hz : k.incoming.remainingQty = 0 :=
      hin.remainingQty.trans (Nat.cast_eq_zero.mpr (Nat.eq_zero_of_not_pos hpos))
    rw [if_neg hpos, if_neg fun hgo => hgo.1.ne' hz, if_pos hz]
    exact ⟨htrades _ rfl, h.emitted, hreports _ _ _ rfl ⟨hin.orderId, rfl⟩, hresting⟩

end

/-! ### The simulation -/

/-- The invariant of both engines, after operations that have brought in this quantity. -/
structure Sim (e : P ↪o ℤ) (symbolIdx total : ℕ) (b : EuNEx.Book) (log : List BookEvent)
    (m : MatchingEngine P) : Prop where
  sound : b.Sound log
  inStep : m.InStep
  phase : b.phase = .cts
  stops : b.stopOrders = []
  next : SameId m.nextOrderId b.nextOrderId
  trades : List.Forall₂ (Trade.Same e) m.trades (trades log)
  emitted : m.tradeUpdates = m.trades
  reports : List.Forall₂ Order.Told m.orderUpdates (execs log)
  resting : ∀ s, List.Forall₂ (Entry.Same e) (m.entries symbolIdx s) (b.resting s)
  others : ∀ symbolIdx' ≠ symbolIdx, ∀ s, m.entries symbolIdx' s = []
  positive : Book.AllRest Book.somethingOpen b
  fits : ∀ s, openTotal (b.resting s) ≤ total

variable {symbolIdx total clOrdId sessionId : ℕ} {b : EuNEx.Book} {log : List BookEvent}
  {m : MatchingEngine P} {r : CommonSubmission P}

lemma Sim.new (symbolIdx : ℕ) : Sim e symbolIdx 0 (Book.new symbolIdx) [] ({} : MatchingEngine P)
    where
  sound := Book.Sound.new symbolIdx
  inStep := .empty
  phase := rfl
  stops := rfl
  next := ⟨0, rfl, rfl⟩
  trades := .nil
  emitted := rfl
  reports := .nil
  resting s := by cases s <;> exact .nil
  others _ _ s := by cases s <;> rfl
  positive := Book.allRest_new symbolIdx
  fits s := by cases s <;> exact le_rfl

namespace Sim

/-- The order as it is entered. -/
lemma same_entered (h : Sim e symbolIdx total b log m) (r : CommonSubmission P)
    (clOrdId sessionId : ℕ) :
    (r.order symbolIdx m.nextOrderId).Same e
      (b.entered (r.toOrder e symbolIdx clOrdId sessionId)) :=
  ⟨h.next, rfl, rfl, rfl, r.quantity_eq, r.quantity_eq, rfl⟩

/-- The fill-or-kill check comes out the same. -/
lemma available_lt_iff (h : Sim e symbolIdx total b log m) (htotal : total < 2 ^ 64) :
    m.available (r.order symbolIdx m.nextOrderId) < r.quantity ↔
      b.available (r.toOrder e symbolIdx clOrdId sessionId) < r.quantity.toNat := by
  set order := r.toOrder e symbolIdx clOrdId sessionId with horder
  have hsame := h.same_entered r clOrdId sessionId
  have hreach : ∀ entry o, Entry.Same e entry o →
      ((r.order symbolIdx m.nextOrderId).priceOk entry.price = true ↔
        decide (order.Reaches order.side.opposite o.price) = true) := by
    intro entry o hentry
    rw [hsame.priceOk_iff, hentry.price, decide_eq_true_eq]
    rfl
  have hfilter := List.rel_filter (p := fun entry =>
      (r.order symbolIdx m.nextOrderId).priceOk entry.price)
    (q := fun o => decide (order.Reaches order.side.opposite o.price))
    (fun entry o hentry => hreach entry o hentry) (h.resting order.side.opposite)
  have hsum : m.available (r.order symbolIdx m.nextOrderId) = openTotal
      ((b.resting order.side.opposite).filter fun o =>
        decide (order.Reaches order.side.opposite o.price)) := by
    rw [MatchingEngine.available, openTotal, Nat.cast_list_sum, List.map_map]
    congr 1
    exact List.forall₂_eq_eq_eq ▸ List.rel_map (fun _ _ hentry => hentry.remainingQty) hfilter
  have hiff : order.quantity ≤ b.available order ↔ order.quantity ≤ openTotal
      ((b.resting order.side.opposite).filter fun o =>
        decide (order.Reaches order.side.opposite o.price)) :=
    Book.le_available_iff_of_fits h.sound.shape.levels ((h.fits _).trans_lt htotal)
  rw [hsum, r.quantity_eq, Nat.cast_lt, ← not_le, ← not_le]
  exact (not_congr hiff).symm

/-- Both engines run their fill loops. -/
lemma execute (h : Sim e symbolIdx total b log m) (r : CommonSubmission P) (clOrdId sessionId : ℕ) :
    let executed := (b.enter (r.toOrder e symbolIdx clOrdId sessionId)).execute
    let swept := { m with nextOrderId := m.nextOrderId + 1 }.sweepOpposite
      (r.order symbolIdx m.nextOrderId)
    InLoop e r.side (m.orders.map Order.orderId) (log ++ executed.log) executed.incoming swept ∧
      ∀ s, List.Forall₂ (Entry.Same e) (swept.entries symbolIdx s) (executed.book.resting s) := by
  set order := r.toOrder e symbolIdx clOrdId sessionId with horder
  set entered : MatchingEngine P := { m with nextOrderId := m.nextOrderId + 1 } with hentered
  set ids := m.orders.map Order.orderId with hids
  have hOK := h.sound.shape.levels
  have hstart : InLoop e r.side ids (log ++ (b.enter order).log) (b.enter order).incoming
      ⟨entered, r.order symbolIdx m.nextOrderId, []⟩ := by
    refine ⟨h.same_entered r clOrdId sessionId, rfl, le_rfl, fun _ => ?_, ?_, ?_, ?_, rfl⟩
    · exact (if_neg (lt_irrefl _)).symm
    · rw [trades_append_of_eq_nil rfl]
      exact h.trades
    · exact (List.append_nil _).trans h.emitted
    · rw [execs_append]
      exact (List.append_nil (execs log)).symm ▸ h.reports
  have hfacing : List.Forall₂ (Facing e ids) (entered.entries symbolIdx r.side.opposite)
      (b.resting r.side.opposite) := by
    apply Sweep.forall₂_imp_mem (h.resting r.side.opposite)
    intro entry o hentry ho hsame
    refine ⟨hsame, h.positive _ o ho, ?_⟩
    obtain ⟨a, ha, -, rfl⟩ := h.inStep.exists_order hentry
    exact List.mem_map_of_mem ha
  obtain ⟨hloop, hleft⟩ := Sweep.sweep_related
    (R := fun (k : Match P) (m' : Matching) => InLoop e r.side ids (log ++ m'.log) m'.incoming k)
    (fun k m' entry o hk hq => hk.visit hq) hstart hfacing
  obtain ⟨hlog, hincoming, hresting⟩ := Book.enter_flat hOK order
  constructor
  · rw [hlog, hincoming]
    exact ⟨hloop.incoming, hloop.side, hloop.le, hloop.status, hloop.trades, hloop.emitted,
      hloop.reports, hloop.known⟩
  · refine (Book.forall_sides (s := r.side) (P := fun s => List.Forall₂ (Entry.Same e)
      ((entered.sweepOpposite (r.order symbolIdx m.nextOrderId)).entries symbolIdx s)
      ((b.enter order).execute.book.resting s))).mpr ⟨?_, ?_⟩
    · have hswept : (entered.sweepOpposite (r.order symbolIdx m.nextOrderId)).entries symbolIdx
          r.side = m.entries symbolIdx r.side :=
        MatchingEngine.entries_sweepOpposite_of_ne (Or.inr (Side.ne_opposite _))
      have hbook : (b.enter order).execute.book.resting r.side = b.resting r.side :=
        Book.resting_execute_own hOK order
      rw [hswept, hbook]
      exact h.resting r.side
    · have hbook : (b.enter order).execute.book.resting r.side.opposite = _ := hresting
      rw [hbook]
      have hswept := MatchingEngine.entries_sweepOpposite (m := entered)
        (r.order symbolIdx m.nextOrderId)
      exact hswept.symm ▸ hleft.imp fun _ _ hsame => hsame.same

/-- Both engines take a new order to the same end. -/
lemma settled (h : Sim e symbolIdx total b log m) (htotal : total < 2 ^ 64) (r : CommonSubmission P)
    (clOrdId sessionId : ℕ) :
    Settled e symbolIdx ({ m with nextOrderId := m.nextOrderId + 1 }.matchIncoming
        (r.order symbolIdx m.nextOrderId)).settle
      (b.newOrder (r.toOrder e symbolIdx clOrdId sessionId)).book
      (log ++ (b.newOrder (r.toOrder e symbolIdx clOrdId sessionId)).log) := by
  set order := r.toOrder e symbolIdx clOrdId sessionId with horder
  set entered : MatchingEngine P := { m with nextOrderId := m.nextOrderId + 1 } with hentered
  set o := r.order symbolIdx m.nextOrderId with ho
  have hinStep : entered.InStep := h.inStep.congr rfl (Nat.le_succ _) rfl
  have hOK := h.sound.shape.levels
  have hcheck : m.available o < r.quantity ↔ b.available order < order.quantity :=
    h.available_lt_iff htotal
  have hexecutes : b.Executes order ↔ ¬(o.tif = .fok ∧ entered.available o < o.quantity) := by
    rw [Book.executes_iff h.phase r.executable, not_and]
    exact imp_congr_right fun _ => not_lt.symm.trans (not_congr hcheck.symm)
  rw [Book.newOrder_cts h.phase r.executable, MatchingEngine.matchIncoming]
  by_cases hex : b.Executes order
  · rw [if_pos hex, if_neg (hexecutes.mp hex)]
    obtain ⟨hloop, hresting⟩ := h.execute r clOrdId sessionId
    have hincoming : (entered.sweepOpposite o).incoming = { o with
        remainingQty := (entered.sweepOpposite o).incoming.remainingQty
        status := (entered.sweepOpposite o).incoming.status } :=
      (Match.sweep_frame ⟨entered, o, []⟩ (entered.entries symbolIdx r.side.opposite)).incoming
    have hsymbol : (entered.sweepOpposite o).incoming.symbolIdx = symbolIdx := by
      rw [hincoming]
      rfl
    have htif : (entered.sweepOpposite o).incoming.tif = r.tif := by
      rw [hincoming]
      rfl
    have hsettled := hloop.settle (by rwa [hsymbol])
      (fun hfok => Book.fok_filled hOK hex (htif.symm.trans hfok))
      (((h.sound.enter order).execute r.executable).shape.levels _)
      ((hinStep.sweepOpposite o).sorted _ _)
    rwa [hsymbol] at hsettled
  · have hreject := not_not.mp (mt hexecutes.mpr hex)
    rw [if_neg hex, if_pos hreject]
    have hne : o.remainingQty ≠ 0 := by
      have hlt : 0 < r.quantity.toNat := (Nat.zero_le _).trans_lt (hcheck.mp hreject.2)
      exact (Int.lt_toNat.mp hlt).ne'
    have hsettle : Match.settle ⟨entered, { o with status := .rejected }, []⟩
        = ⟨entered, { o with status := .rejected }, []⟩ := by
      rw [Match.settle, if_neg (by simp), if_neg hne]
    rw [hsettle]
    constructor
    · rw [trades_append_of_eq_nil rfl]
      exact h.trades
    · exact (List.append_nil _).trans h.emitted
    · rw [execs_append]
      exact List.rel_append h.reports (.cons ⟨h.next, rfl⟩ .nil)
    · intro s
      have hbook : (b.enter order).reject.book.resting s = b.resting s :=
        Book.resting_enter b order s
      rw [hbook]
      exact h.resting s

variable [Zero P]

/-- A new order keeps the two engines together. -/
theorem submit (h : Sim e symbolIdx total b log m) (htotal : total < 2 ^ 64)
    (r : CommonSubmission P) (clOrdId sessionId : ℕ) :
    Sim e symbolIdx (total + r.quantity.toNat)
      (b.newOrder (r.toOrder e symbolIdx clOrdId sessionId)).book
      (log ++ (b.newOrder (r.toOrder e symbolIdx clOrdId sessionId)).log)
      (m.submitOrder symbolIdx r.toSubmission).1 := by
  set order := r.toOrder e symbolIdx clOrdId sessionId with horder
  have hOK := h.sound.shape.levels
  have hsettled := h.settled htotal r clOrdId sessionId
  obtain ⟨hnext, hothers⟩ := m.submitOrder_frame symbolIdx r.toSubmission
  obtain ⟨hid, hphase, -⟩ : (b.newOrder order).book.nextOrderId = b.nextOrderId + 1 ∧
      (b.newOrder order).book.phase = b.phase ∧ _ := Book.newOrder_frame hOK
  constructor
  case sound => exact h.sound.newOrder order
  case inStep => exact h.inStep.submitOrder symbolIdx r.toSubmission
  case phase => exact hphase.trans h.phase
  case stops =>
    exact (Book.stopOrders_newOrder_of_executable hOK r.executable).trans h.stops
  case next =>
    rw [hnext, hid]
    exact h.next.succ
  case trades => exact hsettled.trades
  case emitted =>
    refine Eq.trans ?_ hsettled.emitted
    rw [MatchingEngine.tradeUpdates, MatchingEngine.submitOrder, Match.publish, Match.published,
      List.filterMap_append, List.filterMap_cons_none rfl, List.filterMap_append,
      filterMap_trade?_map]
    exact congrArg _ (List.append_nil _)
  case reports =>
    rw [MatchingEngine.orderUpdates, MatchingEngine.submitOrder, Match.publish, Match.published,
      List.filterMap_append, List.filterMap_cons_some (f := Event.order?) rfl,
      List.filterMap_append, filterMap_order?_map]
    exact hsettled.reports
  case resting => exact hsettled.resting
  case others =>
    intro symbolIdx' hne s
    exact (hothers.entries symbolIdx' hne s).trans (h.others symbolIdx' hne s)
  case positive =>
    apply (Book.allRest_newOrder Book.somethingOpen_lasting hOK h.positive).mpr
    intro hacc
    simp [Book.Accumulates, h.phase] at hacc
  case fits =>
    exact fun s => (Book.openTotal_newOrder_le hOK h.phase r.executable).trans
      (Nat.add_le_add_right (h.fits s) _)

/-- Both engines accept the same cancels. -/
lemma isSome_cancelOrder (h : Sim e symbolIdx total b log m) (i : ℕ) :
    (m.cancelOrder (1000 + i)).isSome = (b.cancelOrder (1 + i)).isSome := by
  have hside : ∀ s, (∃ entry ∈ m.entries symbolIdx s, entry.orderId = 1000 + i) ↔
      ∃ o ∈ b.resting s, o.orderId = 1 + i := fun s =>
    Sweep.forall₂_exists_iff (h.resting s) fun _ _ hsame => hsame.orderId.iff ⟨i, rfl, rfl⟩
  rw [Bool.eq_iff_iff, h.inStep.cancelOrder_isSome_iff, Option.isSome_iff_ne_none, ne_eq,
    Book.cancelOrder_eq_none_iff h.sound.shape]
  push Not
  constructor
  · rintro ⟨symbolIdx', s, entry, hentry, hid⟩
    by_cases hsymbol : symbolIdx' = symbolIdx
    · subst hsymbol
      obtain ⟨o, ho, hid⟩ := (hside s).mp ⟨entry, hentry, hid⟩
      exact ⟨o, Book.mem_live.mpr (Or.inl ⟨s, ho⟩), hid⟩
    · simp [h.others symbolIdx' hsymbol s] at hentry
  · rintro ⟨o, ho, hid⟩
    rcases Book.mem_live.mp ho with ⟨s, ho⟩ | ho
    · exact ⟨symbolIdx, s, (hside s).mpr ⟨o, ho, hid⟩⟩
    · simp [h.stops] at ho

/-- A cancel keeps the two engines together. -/
theorem cancel (h : Sim e symbolIdx total b log m) (i : ℕ) :
    Sim e symbolIdx total (b.outcome (.cancelOrder (1 + i))).book
      (log ++ (b.outcome (.cancelOrder (1 + i))).log) (m.step symbolIdx (.cancel i)) := by
  have hboth := h.isSome_cancelOrder i
  cases hc : b.cancelOrder (1 + i) with
  | none =>
    rw [hc, Option.isSome_none, Option.isSome_eq_false_iff, Option.isNone_iff_eq_none] at hboth
    rw [Book.outcome_cancelOrder_none hc, List.append_nil, MatchingEngine.step, hboth]
    exact h
  | some c =>
    rw [hc, Option.isSome_some] at hboth
    obtain ⟨r, hr⟩ := Option.isSome_iff_exists.mp hboth
    obtain ⟨hinStep, hid, hstatus, hnext, htrades, hevents, hentries⟩ :=
      h.inStep.cancelOrder_spec hr
    have hrem := Book.removes_of_cancelOrder h.sound.shape hc
    have hresting := Book.resting_cancelOrder h.sound.shape h.stops hc
    have hreport : c.report.orderId = 1 + i ∧ c.report.status = .cancelled := by
      cases hrem <;> exact ⟨rfl, rfl⟩
    rw [Book.outcome_cancelOrder_some hc, MatchingEngine.step, hr]
    constructor
    case sound => exact h.sound.cancel hrem
    case inStep => exact hinStep
    case phase => exact hrem.phase.trans h.phase
    case stops =>
      apply List.eq_nil_iff_forall_not_mem.mpr
      intro stop hstop
      simpa [h.stops] using hrem.stopOrders_subset stop hstop
    case next =>
      show SameId r.1.nextOrderId c.book.nextOrderId
      rw [hnext, hrem.nextOrderId]
      exact h.next
    case trades =>
      rw [trades_append_of_eq_nil rfl]
      exact htrades.symm ▸ h.trades
    case emitted =>
      have hupdates : r.1.tradeUpdates = m.tradeUpdates := by
        simp [MatchingEngine.tradeUpdates, hevents, Event.trade?]
      exact hupdates.trans (h.emitted.trans htrades.symm)
    case reports =>
      have hupdates : r.1.orderUpdates = m.orderUpdates ++ [r.2] := by
        simp [MatchingEngine.orderUpdates, hevents, Event.order?]
      rw [execs_append]
      refine hupdates.symm ▸ List.rel_append h.reports (.cons ⟨?_, ?_⟩ .nil)
      · exact ⟨i, hid, hreport.1⟩
      · exact hstatus.trans hreport.2.symm
    case resting =>
      intro s
      show List.Forall₂ _ (r.1.entries symbolIdx s) (c.book.resting s)
      rw [hentries, hresting]
      refine List.rel_filter (fun entry o hsame => ?_) (h.resting s)
      simpa using not_congr (hsame.orderId.iff ⟨i, rfl, rfl⟩)
    case others =>
      intro symbolIdx' hne s
      show r.1.entries symbolIdx' s = []
      rw [hentries, h.others symbolIdx' hne s]
      rfl
    case positive => exact h.positive.of_subset hrem.resting_subset
    case fits =>
      intro s
      show openTotal (c.book.resting s) ≤ total
      rw [hresting]
      exact (openTotal_filter_le _ _).trans (h.fits s)

/-- The two engines agree. -/
theorem agree (h : Sim e symbolIdx total b log m) : Agree e symbolIdx b log m where
  trades := h.emitted.symm ▸ h.trades
  status i := by
    have hfilter := List.rel_filter (R := Order.Told)
      (p := fun o : Order P => decide (o.orderId = 1000 + i))
      (q := fun r => decide (r.orderId = 1 + i))
      (fun o r htold => by simpa using htold.orderId.iff ⟨i, rfl, rfl⟩) h.reports
    have hmap : (m.orderUpdates.filter fun o => decide (o.orderId = 1000 + i)).map Order.status
        = ((execs log).filter fun r => decide (r.orderId = 1 + i)).map ExecutionReport.status :=
      List.forall₂_eq_eq_eq ▸ List.rel_map (fun _ _ htold => htold.status) hfilter
    rw [MatchingEngine.lastStatus, EuNEx.lastStatus, ← List.getLast?_map, ← List.getLast?_map, hmap]
  cancels := h.isSome_cancelOrder
  resting := h.resting

end Sim

/-! ### Runs -/

variable [Zero P]

/-- The two engines stay together. -/
theorem sim_run (symbolIdx : ℕ) (ops : List (Op P)) (hfits : (ops.map Op.quantity).sum < 2 ^ 64) :
    Sim e symbolIdx (ops.map Op.quantity).sum
      (Book.run symbolIdx (ops.map (Op.toBookOp e symbolIdx))).1
      (Book.run symbolIdx (ops.map (Op.toBookOp e symbolIdx))).2
      (MatchingEngine.run symbolIdx ops) := by
  induction ops using List.reverseRecOn with
  | nil => exact .new symbolIdx
  | append_singleton ops op ih =>
    rw [List.map_append, List.sum_append, List.map_singleton, List.sum_singleton] at hfits ⊢
    have hsim := ih (lt_of_le_of_lt (Nat.le_add_right _ _) hfits)
    rw [List.map_append, List.map_singleton, Book.run, Machine.run_snoc, MatchingEngine.run,
      List.foldl_append, List.foldl_cons, List.foldl_nil]
    cases op with
    | submit r clOrdId sessionId =>
      exact hsim.submit (lt_of_le_of_lt (Nat.le_add_right _ _) hfits) r clOrdId sessionId
    | cancel index => exact hsim.cancel index

/-- Whatever the operations, and after each of them, the two engines agree. -/
theorem engines_agree (e : P ↪o ℤ) (symbolIdx : ℕ) (ops : List (Op P))
    (hfits : (ops.map Op.quantity).sum < 2 ^ 64) (n : ℕ) :
    Agree e symbolIdx (Book.run symbolIdx ((ops.take n).map (Op.toBookOp e symbolIdx))).1
      (Book.run symbolIdx ((ops.take n).map (Op.toBookOp e symbolIdx))).2
      (MatchingEngine.run symbolIdx (ops.take n)) := by
  have hle : ((ops.take n).map Op.quantity).sum ≤ (ops.map Op.quantity).sum := by
    conv_rhs => rw [← List.take_append_drop n ops, List.map_append, List.sum_append]
    exact Nat.le_add_right _ _
  exact (sim_run symbolIdx (ops.take n) (hle.trans_lt hfits)).agree

/-- An offer, a bid that takes part of it, and a cancel of what is left. -/
def partialFill : List (Op ℤ) :=
  [.submit ⟨⟨.sell, .limit, 100, 10, .day, []⟩, rfl, by decide⟩ 1 1,
    .submit ⟨⟨.buy, .limit, 101, 4, .ioc, []⟩, rfl, by decide⟩ 2 2, .cancel 0]

theorem engines_agree_partial_fill :
    (partialFill.map Op.quantity).sum < 2 ^ 64 ∧
      (MatchingEngine.run 1 partialFill).lastStatus 1000 = some .cancelled ∧
      Agree (RelEmbedding.refl (· ≤ ·)) 1
        (Book.run 1 ((partialFill.take 3).map (Op.toBookOp (RelEmbedding.refl (· ≤ ·)) 1))).1
        (Book.run 1 ((partialFill.take 3).map (Op.toBookOp (RelEmbedding.refl (· ≤ ·)) 1))).2
        (MatchingEngine.run 1 (partialFill.take 3)) :=
  ⟨by decide, by decide, engines_agree _ 1 partialFill (by decide) 3⟩

end Dashboard

end EuNEx
