import EuNEx.Book.Flat
import EuNEx.Lib.Greedy

/-!
# Price-time priority

Continuous matching against a flat reference: the quantity of the incoming order is drawn from the
resting orders of the other side that are within its limit, best price first and in the order of
their ids at a price.
-/

namespace EuNEx

open Greedy (Stock)

/-- Resting orders hold the quantity that is open. -/
def Order.stock : Stock Order where
  amount := Order.remainingQty
  reduce q o := Ledger.fill o q
  amount_reduce _ _ := rfl
  reduce_zero _ := rfl
  reduce_reduce _ _ _ := by simp [Ledger.fill, Nat.sub_sub]

lemma isStop_of_type {order : Order} (h : order.ordType = .limit ∨ order.ordType = .market) :
    order.ordType.isStop = false := by
  rcases h with h | h <;> rw [h] <;> rfl

namespace FillLoop

variable {loop : FillLoop} {m : Matching} {s : Side} {stop : Matching → ℤ → Bool}
  {reach : Order → ℤ → Prop} [∀ o p, Decidable (reach o p)] {tradePrice : ℤ → ℤ}

/-- The trade that the loop writes down for a piece that an order takes. -/
def Writes (loop : FillLoop) (tradePrice : ℤ → ℤ) (incoming : Order) (piece : Order × ℕ)
    (t : Trade) : Prop :=
  ∃ b i, incoming.Shrunk i ∧ t = loop.trade b i piece.1 (tradePrice piece.1.price) piece.2

/-- What a fill loop does if it draws the incoming quantity from `orders`: what is left of them and
of the incoming order, and the trades. -/
structure Draws (loop : FillLoop) (tradePrice : ℤ → ℤ) (orders : List Order) (m m' : Matching)
    (left : List Order) : Prop where
  left : left = (Order.stock.draw m.incoming.remainingQty orders).left
  incoming : m'.incoming = { m.incoming with
    remainingQty := (Order.stock.draw m.incoming.remainingQty orders).missing }
  logged : ∃ ts, trades m'.log = trades m.log ++ ts ∧ List.Forall₂
    (loop.Writes tradePrice m.incoming) (Order.stock.draw m.incoming.remainingQty orders).pieces ts

/-- The loop has nothing to draw, or nothing to draw from. -/
lemma Draws.refl {orders : List Order} (h : m.incoming.remainingQty = 0 ∨ orders = []) :
    loop.Draws tradePrice orders m m orders := by
  rcases h with hz | rfl
  · refine ⟨by rw [hz, Stock.draw_zero], ?_, [], by simp, by rw [hz, Stock.draw_zero]; exact .nil⟩
    rw [hz, Stock.draw_zero, ← hz]
  · exact ⟨rfl, rfl, [], by simp, .nil⟩

/-- A turn of the loop, and then the rest of it. -/
lemma Draws.turn {m' m'' : Matching} {o : Order} {left : Option Order} {traded : ℕ}
    {orders rest : List Order} (ht : loop.Turn (tradePrice o.price) m m' o left traded)
    (h : loop.Draws tradePrice orders m' m'' rest) :
    loop.Draws tradePrice (o :: orders) m m'' (left.toList ++ rest) := by
  have hleft := ht.left
  have hqty := ht.qty_eq
  have hremaining : m'.incoming.remainingQty = m.incoming.remainingQty - traded := by
    rw [ht.incoming, Ledger.fill]
  have htrades : trades m'.log
      = trades m.log ++ [loop.trade m.book m.incoming o (tradePrice o.price) traded] := by
    rw [ht.log, trades_append, trades_append]
    split <;> exact List.append_nil _
  obtain ⟨ts, hts, hwrites⟩ := h.logged
  have hlate : ∀ piece t, loop.Writes tradePrice m'.incoming piece t →
      loop.Writes tradePrice m.incoming piece t := by
    rintro piece t ⟨b, i, hshrunk, rfl⟩
    exact ⟨b, i, ht.incoming_shrunk.trans hshrunk, rfl⟩
  have hnew : loop.Writes tradePrice m.incoming (o, traded)
      (loop.trade m.book m.incoming o (tradePrice o.price) traded) := ⟨_, _, .refl _, rfl⟩
  by_cases hle : o.remainingQty ≤ m.incoming.remainingQty
  · -- the resting order is used up
    obtain rfl : traded = o.remainingQty := by rw [hqty, min_eq_right hle]
    have hdraw : Order.stock.draw _ (o :: orders) = _ := Stock.draw_cons_le ht.open' hle
    rw [Nat.sub_self, if_pos rfl] at hleft
    refine ⟨?_, ?_, loop.trade m.book m.incoming o (tradePrice o.price) o.remainingQty :: ts,
      ?_, ?_⟩
    · rw [hdraw, hleft, h.left, hremaining]
      rfl
    · rw [hdraw, h.incoming, hremaining, ht.incoming]
      rfl
    · rw [hts, htrades, List.append_assoc, List.singleton_append]
    · rw [hdraw]
      refine .cons hnew ?_
      rw [hremaining] at hwrites
      exact hwrites.imp hlate
  · -- the incoming order is filled
    obtain rfl : traded = m.incoming.remainingQty := by rw [hqty, min_eq_left (by omega)]
    have hdraw : Order.stock.draw _ (o :: orders) = _ := Stock.draw_cons_gt ht.open' hle
    rw [if_neg (by omega)] at hleft
    rw [Nat.sub_self] at hremaining
    rw [hremaining, Stock.draw_zero] at hwrites
    cases hwrites
    refine ⟨?_, ?_, [loop.trade m.book m.incoming o (tradePrice o.price) m.incoming.remainingQty],
      ?_, ?_⟩
    · rw [hdraw, hleft, h.left, hremaining, Stock.draw_zero]
      rfl
    · rw [hdraw, h.incoming, hremaining, Stock.draw_zero, ht.incoming]
    · rw [hts, htrades, List.append_nil]
    · rw [hdraw]
      exact .cons hnew .nil

/-- The loop draws from the orders within reach, and leaves the others alone. -/
theorem sweep_draws (loop : FillLoop) (tradePrice : ℤ → ℤ) (hstop : Stops stop reach)
    (m : Matching) (orders : List Order) :
    ∃ left, (Sweep.sweep (Sweep.visitFlat Order.price stop fun p => loop.visit (tradePrice p)) m
        orders).2 = left ++ orders.dropWhile (fun o => reach m.incoming o.price) ∧
      loop.Draws tradePrice (orders.takeWhile fun o => reach m.incoming o.price) m
        (Sweep.sweep (Sweep.visitFlat Order.price stop fun p => loop.visit (tradePrice p)) m
          orders).1 left := by
  induction orders generalizing m with
  | nil => exact ⟨[], rfl, .refl (Or.inr rfl)⟩
  | cons o orders ih =>
    by_cases hgo : m.incoming.remainingQty ≠ 0 ∧ reach m.incoming o.price
    · obtain ⟨hopen, hreach⟩ := hgo
      cases hv : loop.visit (tradePrice o.price) m o with
      | none => exact absurd (visit_eq_none.mp hv) hopen
      | some r =>
        obtain ⟨m', left⟩ := r
        have ht := turn_of_visit hv
        have hflat : Sweep.visitFlat Order.price stop (fun p => loop.visit (tradePrice p)) m o
            = some (m', left) := by
          rw [Sweep.visitFlat, (hstop.iff m o.price).mpr ⟨hopen, hreach⟩]
          exact hv
        have hsame : (fun o' : Order => decide (reach m'.incoming o'.price))
            = fun o' => decide (reach m.incoming o'.price) :=
          funext fun o' => decide_eq_decide.mpr (hstop.shrunk _ ht.incoming_shrunk)
        obtain ⟨rest, hrest, hdraws⟩ := ih m'
        rw [hsame] at hrest hdraws
        rw [Sweep.sweep_cons_go hflat, List.dropWhile_cons_of_pos (by simpa using hreach),
          List.takeWhile_cons_of_pos (by simpa using hreach), hrest, ← List.append_assoc]
        exact ⟨_, rfl, .turn ht hdraws⟩
    · have hstopped : stop m o.price = true := by
        rw [← Bool.not_eq_false, hstop.iff]
        exact hgo
      have hflat : Sweep.visitFlat Order.price stop (fun p => loop.visit (tradePrice p)) m o
          = none := by
        rw [Sweep.visitFlat, if_pos hstopped]
      rw [Sweep.sweep_cons_stop hflat]
      refine ⟨(o :: orders).takeWhile fun o => reach m.incoming o.price,
        List.takeWhile_append_dropWhile.symm, .refl ?_⟩
      by_cases hz : m.incoming.remainingQty = 0
      · exact Or.inl hz
      · have hout : ¬reach m.incoming o.price := fun hreach => hgo ⟨hz, hreach⟩
        exact Or.inr (List.takeWhile_cons_of_neg (by simpa using hout))

/-- The nested loop draws from the orders within reach. -/
theorem fill_draws (loop : FillLoop) (tradePrice : ℤ → ℤ) {levels : Levels s} (hOK : levels.OK)
    (hstop : Stops stop reach) (m : Matching) : ∃ left, (loop.fill stop tradePrice m levels).2.elems
        = left ++ levels.elems.dropWhile (fun o => reach m.incoming o.price) ∧
      loop.Draws tradePrice (levels.elems.takeWhile fun o => reach m.incoming o.price) m
        (loop.fill stop tradePrice m levels).1 left := by
  have h := sweep_draws loop tradePrice hstop m levels.elems
  rwa [fill_flat loop m tradePrice hOK hstop] at h

end FillLoop

namespace Matching

variable {m : Matching}

lemma sweepSide_draws {s : Side} {beyond : ℤ → ℤ → Bool} {loop : FillLoop}
    (hOK : (m.book.levels s).OK) (hbeyond : ∀ p price, beyond p price = true ↔ s.before price p) :
    ∃ left, (m.sweepSide s beyond loop).book.resting s
        = left ++ (m.book.resting s).dropWhile (fun o => m.incoming.Reaches s o.price) ∧
      loop.Draws id (m.incoming.within s (m.book.resting s)) m (m.sweepSide s beyond loop)
        left := by
  obtain ⟨left, hleft, hdraws⟩ := FillLoop.fill_draws loop id hOK (stops_sweepSide hbeyond) m
  refine ⟨left, ?_, hdraws.left, hdraws.incoming, hdraws.logged⟩
  rw [← Book.resting] at hleft
  rw [← hleft]
  exact Book.resting_setLevels _

/-- Matching draws the quantity of the order from the other side. -/
theorem execute_draws (hOK : ∀ s, (m.book.levels s).OK) :
    let s := m.incoming.side.opposite
    ∃ left, m.execute.book.resting s
        = left ++ (m.book.resting s).dropWhile (fun o => m.incoming.Reaches s o.price) ∧
      m.incoming.side.fillLoop.Draws id (m.incoming.within s (m.book.resting s)) m m.execute
        left := by
  cases hside : m.incoming.side with
  | buy =>
    simp only [execute, hside]
    exact sweepSide_draws (hOK .sell) fun _ _ => decide_eq_true_iff
  | sell =>
    simp only [execute, hside]
    exact sweepSide_draws (hOK .buy) fun _ _ => decide_eq_true_iff

/-- The resting logic: only the rest of a limit order that is not IOC stays. -/
lemma settle_book_eq (hexec : m.incoming.ordType.isStop = false) : m.settle.book
    = if m.incoming.ordType = .limit ∧ m.incoming.tif ≠ .ioc ∧ 0 < m.incoming.remainingQty then
        m.book.insertResting { m.incoming with
          status := if m.incoming.remainingQty < m.incoming.quantity then .partiallyFilled
            else .new }
      else m.book := by
  rw [settle]
  by_cases hpos : 0 < m.incoming.remainingQty
  · by_cases hgo : m.incoming.ordType = .market ∨ m.incoming.tif = .ioc
    · have hnot : ¬(m.incoming.ordType = .limit ∧ m.incoming.tif ≠ .ioc ∧
          0 < m.incoming.remainingQty) := by
        rintro ⟨hlimit, htif, -⟩
        rcases hgo with hmarket | hioc
        · simp [hmarket] at hlimit
        · exact htif hioc
      rw [if_neg hnot]
      simp only [hpos, if_true, if_pos hgo]
    · push Not at hgo
      have hlimit : m.incoming.ordType = .limit := by
        cases h : m.incoming.ordType <;> simp_all [OrderType.isStop]
      simp [hpos, hlimit, hgo.2]
  · simp [hpos]

end Matching

namespace Book

variable {b : Book} {order : Order}

/-! ### The reference -/

/-- What an order takes from the other side: its quantity, drawn from the resting orders within its
limit. -/
def taken (b : Book) (order : Order) : Greedy.Drawn Order :=
  Order.stock.draw order.quantity
    (order.within order.side.opposite (b.resting order.side.opposite))

/-- The trade of a piece, at the price of the resting order. -/
structure PieceTrade (b : Book) (order : Order) (piece : Order × ℕ) (t : Trade) : Prop where
  price : t.price = piece.1.price
  quantity : t.quantity = piece.2
  buyOrderId : t.buyOrderId = if order.side = .buy then b.nextOrderId else piece.1.orderId
  sellOrderId : t.sellOrderId = if order.side = .buy then piece.1.orderId else b.nextOrderId

/-- What is left of a new order. -/
def rest (b : Book) (order : Order) : Order :=
  { b.entered order with
    remainingQty := (b.taken order).missing
    status := if (b.taken order).missing < order.quantity then .partiallyFilled else .new }

/-- Price-time priority: the outcome of a new order is that of the reference. -/
structure Priority (b : Book) (order : Order) (m : Matching) : Prop where
  ordered : (b.resting order.side.opposite).Pairwise (Order.Priority order.side.opposite)
  trades : List.Forall₂ (b.PieceTrade order) (b.taken order).pieces (trades m.log)
  opposite : m.book.resting order.side.opposite = (b.taken order).left
    ++ (b.resting order.side.opposite).dropWhile fun o => order.Reaches order.side.opposite o.price
  /-- Only the rest of a limit order that is not IOC comes to rest, at the back of its level. -/
  own : m.book.levels order.side =
    if order.ordType = .limit ∧ order.tif ≠ .ioc ∧ 0 < (b.taken order).missing then
      (b.levels order.side).upsert order.price fun level => level.getD [] ++ [b.rest order]
    else b.levels order.side
  stopOrders : m.book.stopOrders = b.stopOrders
  /-- Whatever comes before an order that trades is used up. -/
  fair : ∀ piece ∈ (b.taken order).pieces, ∀ o ∈ b.resting order.side.opposite,
    o.Priority order.side.opposite piece.1 →
      ∀ o' ∈ m.book.resting order.side.opposite, o'.orderId ≠ o.orderId

lemma PieceTrade.of_writes {piece : Order × ℕ} {t : Trade}
    (h : order.side.fillLoop.Writes id (b.entered order) piece t) :
    b.PieceTrade order piece t := by
  obtain ⟨b', i, hshrunk, rfl⟩ := h
  have hid : i.orderId = b.nextOrderId := hshrunk.orderId
  cases hside : order.side with
  | buy => exact ⟨rfl, rfl, by simp [hside, Side.fillLoop, FillLoop.matchBuy, hid],
      by simp [hside, Side.fillLoop, FillLoop.matchBuy]⟩
  | sell => exact ⟨rfl, rfl, by simp [hside, Side.fillLoop, FillLoop.matchSell],
      by simp [hside, Side.fillLoop, FillLoop.matchSell, hid]⟩

lemma ne_of_nodup_append {orders rest : List Order} {o o' : Order}
    (hids : ((orders ++ rest).map Order.orderId).Nodup) (ho : o ∈ orders) (ho' : o' ∈ rest) :
    o'.orderId ≠ o.orderId := by
  rw [List.map_append, List.nodup_append] at hids
  exact (hids.2.2 _ (List.mem_map_of_mem ho) _ (List.mem_map_of_mem ho')).symm

/-- Of a list in its priority, whatever comes before an order that is drawn from is used up. -/
lemma fair_of_draw {s : Side} {orders rest : List Order} {q : ℕ}
    (hordered : (orders ++ rest).Pairwise (Order.Priority s))
    (hids : ((orders ++ rest).map Order.orderId).Nodup) {piece : Order × ℕ}
    (hpiece : piece ∈ (Order.stock.draw q orders).pieces) {o : Order} (ho : o ∈ orders ++ rest)
    (hbefore : o.Priority s piece.1) :
    ∀ o' ∈ (Order.stock.draw q orders).left ++ rest, o'.orderId ≠ o.orderId := by
  obtain ⟨used, untouched, hsplit, hpieces, hleft⟩ := Stock.draw_split (S := Order.stock) q orders
  have hused : piece.1 ∈ used := hpieces ▸ List.mem_map_of_mem hpiece
  rw [hsplit, List.append_assoc] at hordered hids ho
  have hbehind : o ∉ untouched ++ rest := fun hmem =>
    hbefore.asymm ((List.pairwise_append.mp hordered).2.2 _ hused _ hmem)
  have hin : o ∈ used := (List.mem_append.mp ho).resolve_right hbehind
  rcases hleft with hleft | ⟨full, last, q', rfl, hleft⟩
  · rw [hleft]
    exact fun o' ho' => ne_of_nodup_append hids hin ho'
  · -- the last one may have something left, but nothing comes before it that trades later
    have hfull : o ∈ full := by
      rcases List.mem_append.mp hin with hfull | hlast
      · exact hfull
      · obtain rfl := List.mem_singleton.mp hlast
        rcases List.mem_append.mp hused with hpfull | hplast
        · have hlate := (List.pairwise_append.mp (List.pairwise_append.mp hordered).1).2.2 _ hpfull
            _ (List.mem_singleton_self _)
          exact absurd hlate hbefore.asymm
        · rw [List.mem_singleton.mp hplast] at hbefore
          exact absurd hbefore hbefore.asymm
    rw [hleft]
    rw [List.append_assoc, List.singleton_append] at hids
    intro o' ho'
    rcases List.mem_cons.mp ho' with rfl | ho'
    · have hlast : last.orderId ≠ o.orderId :=
        ne_of_nodup_append hids hfull List.mem_cons_self
      exact hlast
    · exact ne_of_nodup_append hids hfull (List.mem_cons_of_mem _ ho')

lemma Shape.priority (h : b.Shape) (hphase : b.phase = .cts)
    (hexec : order.ordType.isStop = false)
    (hfok : order.tif = .fok → order.quantity ≤ b.available order) :
    b.Priority order (b.newOrder order) := by
  have hnew := newOrder_cts hphase hexec
  rw [if_pos ((executes_iff hphase hexec).mpr hfok)] at hnew
  have hsweeps := enter_sweeps h.levels order
  have hdraws := Matching.execute_draws (m := b.enter order) (levels_ok_enter h.levels order)
  simp only [enter_incoming, resting_enter] at hdraws
  obtain ⟨left, hresting, hleft, hincoming, ts, hts, hwrites⟩ := hdraws
  have hbook : (b.newOrder order).book
      = if order.ordType = .limit ∧ order.tif ≠ .ioc ∧ 0 < (b.taken order).missing then
          (b.enter order).execute.book.insertResting (b.rest order)
        else (b.enter order).execute.book := by
    rw [hnew, Matching.settle_book_eq (by rw [hincoming]; exact hexec), hincoming]
    rfl
  have hown := levels_execute_own h.levels order
  have hopposite : (b.newOrder order).book.resting order.side.opposite
      = (b.taken order).left ++ (b.resting order.side.opposite).dropWhile
        fun o => order.Reaches order.side.opposite o.price := by
    have hexecuted : (b.enter order).execute.book.resting order.side.opposite
        = (b.taken order).left ++ (b.resting order.side.opposite).dropWhile
          fun o => order.Reaches order.side.opposite o.price := hleft ▸ hresting
    rw [hbook]
    split
    · exact (resting_insertResting_opposite _ (b.rest order)).trans hexecuted
    · exact hexecuted
  refine ⟨(h.levels _).elems_priority, ?_, hopposite, ?_, ?_, ?_⟩
  · obtain ⟨last, hsettle, hlast⟩ := (b.enter order).execute.settle_log
    rw [hnew, hsettle, trades_append, trades_closing hlast, hts, List.append_nil]
    exact hwrites.imp fun _ _ hwrite => (PieceTrade.of_writes hwrite : b.PieceTrade order _ _)
  · rw [hbook]
    split
    · rw [insertResting_eq, ← hown]
      exact levels_withSide
    · exact hown
  · have hstops : (b.enter order).execute.book.stopOrders = b.stopOrders := hsweeps.stopOrders
    rw [hbook]
    split
    · rw [insertResting_stopOrders, hstops]
    · exact hstops
  · intro piece hpiece o ho hbefore
    have hall : order.within order.side.opposite (b.resting order.side.opposite)
        ++ (b.resting order.side.opposite).dropWhile
          (fun o => order.Reaches order.side.opposite o.price)
        = b.resting order.side.opposite := List.takeWhile_append_dropWhile
    rw [hopposite]
    apply fair_of_draw (s := order.side.opposite) _ _ hpiece _ hbefore
    · rw [hall]
      exact (h.levels _).elems_priority
    · rw [hall]
      exact h.nodup _
    · rwa [hall]

/-- In continuous trading, `newOrder` is the reference for every limit or market order that passes
the fill-or-kill check, in every book that a run reaches. -/
theorem price_time_priority (symbolIdx : ℕ) (ops : List BookOp) (order : Order)
    (hphase : (run symbolIdx ops).1.phase = .cts)
    (htype : order.ordType = .limit ∨ order.ordType = .market)
    (hfok : order.tif = .fok → order.quantity ≤ (run symbolIdx ops).1.available order) :
    (run symbolIdx ops).1.Priority order ((run symbolIdx ops).1.newOrder order) :=
  (sound_run symbolIdx ops).shape.priority hphase (isStop_of_type htype) hfok

/-- A buyer of 5 takes 3 at 10 and 2 at 11. -/
theorem price_time_priority_twoAsks :
    let ops := [.newOrder (dayLimit .sell 11 4 1), .newOrder (dayLimit .sell 10 3 2)]
    (run 1 ops).1.Priority (dayLimit .buy 11 5 3)
      ((run 1 ops).1.newOrder (dayLimit .buy 11 5 3)) :=
  price_time_priority 1 _ _ rfl (Or.inl rfl) (by decide)

/-! ### Fill or kill -/

lemma sum_of_pieces {pieces : List (Order × ℕ)} {ts : List Trade}
    (h : List.Forall₂ (b.PieceTrade order) pieces ts) :
    (ts.map Trade.quantity).sum = (pieces.map Prod.snd).sum := by
  induction h with
  | nil => rfl
  | cons hpiece _ ih => rw [List.map_cons, List.map_cons, List.sum_cons, List.sum_cons, ih,
      hpiece.quantity]

/-- The order is filled, and at once. -/
structure FilledAtOnce (b : Book) (order : Order) (m : Matching) : Prop where
  remainingQty : m.incoming.remainingQty = 0
  traded : ((trades m.log).map Trade.quantity).sum = order.quantity
  report : .exec ((b.entered order).report .filled order.quantity 0) ∈ m.log
  own : m.book.levels order.side = b.levels order.side
  stopOrders : m.book.stopOrders = b.stopOrders

/-- The order is turned away, and nothing has happened. -/
structure TurnedAway (b : Book) (order : Order) (m : Matching) : Prop where
  trades : trades m.log = []
  report : .exec ((b.entered order).report .rejected 0 order.quantity) ∈ m.log
  bids : m.book.bids = b.bids
  asks : m.book.asks = b.asks
  orderIndex : m.book.orderIndex = b.orderIndex
  stopOrders : m.book.stopOrders = b.stopOrders
  lastTradePrice : m.book.lastTradePrice = b.lastTradePrice

lemma Shape.filledAtOnce (h : b.Shape) (hphase : b.phase = .cts)
    (hexec : order.ordType.isStop = false) (htif : order.tif = .fok)
    (havailable : order.quantity ≤ b.available order) :
    b.FilledAtOnce order (b.newOrder order) := by
  have hpriority := h.priority hphase hexec fun _ => havailable
  have hex : b.Executes order := (executes_iff hphase hexec).mpr fun _ => havailable
  have hwithin := havailable.trans (available_le_within h.levels order)
  have hmissing : (b.taken order).missing = 0 := by
    rw [taken, Stock.missing_draw]
    exact Nat.sub_eq_zero_of_le hwithin
  have hfilled := fok_filled h.levels hex htif
  have hnew := newOrder_cts hphase hexec
  rw [if_pos hex, Matching.settle] at hnew
  simp only [hfilled, lt_irrefl, if_false] at hnew
  have hshrunk := (enter_sweeps h.levels order).incoming
  refine ⟨?_, ?_, ?_, ?_, hpriority.stopOrders⟩
  · rw [hnew]
  · rw [sum_of_pieces hpriority.trades, taken, Stock.sum_pieces]
    exact min_eq_left hwithin
  · rw [hnew, hshrunk.eq]
    simp [Order.report, entered]
  · rw [hpriority.own, hmissing, if_neg (by simp)]

lemma turnedAway (hphase : b.phase = .cts) (hexec : order.ordType.isStop = false)
    (htif : order.tif = .fok) (havailable : ¬order.quantity ≤ b.available order) :
    b.TurnedAway order (b.newOrder order) := by
  have hnew := newOrder_cts hphase hexec
  rw [if_neg fun hex => havailable (((executes_iff hphase hexec).mp hex) htif)] at hnew
  rw [hnew]
  exact ⟨rfl, by simp [Matching.reject, entered], rfl, rfl, rfl, rfl, rfl⟩

/-- An order that is filled at once, or turned away, does not come to rest. -/
lemma Sound.newOrder_fok_not_live {hist : List BookEvent} (h : b.Sound hist)
    (hphase : b.phase = .cts) (hexec : order.ordType.isStop = false) (htif : order.tif = .fok) :
    ∀ o ∈ (b.newOrder order).book.live, o.orderId ≠ b.nextOrderId := by
  have hlt : ∀ o ∈ b.live, o.orderId < b.nextOrderId := fun o ho => h.laws.ids.live_lt ho
  have hside : ∀ s, ∀ o ∈ b.resting s, o.orderId < b.nextOrderId := fun s o ho =>
    hlt o (mem_live.mpr (Or.inl ⟨s, ho⟩))
  have hstop : ∀ o ∈ b.stopOrders, o.orderId < b.nextOrderId := fun o ho =>
    hlt o (mem_live.mpr (Or.inr ho))
  intro o ho
  by_cases havailable : order.quantity ≤ b.available order
  · have hfilled := h.shape.filledAtOnce hphase hexec htif havailable
    have hpriority := h.shape.priority hphase hexec fun _ => havailable
    rcases mem_live.mp ho with ⟨s, ho⟩ | ho
    · revert o
      refine (forall_sides (s := order.side) (P := fun s => ∀ o,
        o ∈ (b.newOrder order).book.live → o ∈ (b.newOrder order).book.resting s →
          o.orderId ≠ b.nextOrderId)).mpr ⟨fun o _ ho => ?_, fun o _ ho => ?_⟩ s
      · rw [resting, hfilled.own] at ho
        exact (hside _ o ho).ne
      · rw [hpriority.opposite] at ho
        rcases List.mem_append.mp ho with ho | ho
        · exact (Stock.left_forall (S := Order.stock) (fun _ _ hlt => hlt) _
            (fun o ho => hside _ o ((List.takeWhile_sublist _).subset ho)) o ho).ne
        · exact (hside _ o ((List.dropWhile_sublist _).subset ho)).ne
    · rw [hfilled.stopOrders] at ho
      exact (hstop o ho).ne
  · have haway := turnedAway hphase hexec htif havailable
    rcases mem_live.mp ho with ⟨s, ho⟩ | ho
    · have hsame : (b.newOrder order).book.levels s = b.levels s := by
        cases s with
        | buy => exact haway.bids
        | sell => exact haway.asks
      rw [resting, hsame] at ho
      exact (hside s o ho).ne
    · rw [haway.stopOrders] at ho
      exact (hstop o ho).ne

/-- Fill-or-kill is all or nothing, and exact: as long as the open quantity of a side fits 64 bits,
the order is filled if there is enough within its limit, and otherwise nothing happens. -/
theorem fok_exact (symbolIdx : ℕ) (ops : List BookOp) (order : Order)
    (hphase : (run symbolIdx ops).1.phase = .cts)
    (hfits : ∀ s, openTotal ((run symbolIdx ops).1.resting s) < 2 ^ 64)
    (htype : order.ordType = .limit ∨ order.ordType = .market) (htif : order.tif = .fok) :
    let b := (run symbolIdx ops).1
    let acceptable := (b.resting order.side.opposite).filter fun o =>
      order.Reaches order.side.opposite o.price
    (order.quantity ≤ openTotal acceptable → b.FilledAtOnce order (b.newOrder order)) ∧
    (openTotal acceptable < order.quantity → b.TurnedAway order (b.newOrder order)) ∧
    ∀ o ∈ (b.newOrder order).book.live, o.orderId ≠ b.nextOrderId := by
  intro b acceptable
  have h : b.Sound (run symbolIdx ops).2 := sound_run symbolIdx ops
  have hexec := isStop_of_type htype
  have hiff := le_available_iff_of_fits h.shape.levels (hfits order.side.opposite)
  refine ⟨fun henough => ?_, fun hshort => ?_, h.newOrder_fok_not_live hphase hexec htif⟩
  · exact h.shape.filledAtOnce hphase hexec htif (hiff.mpr henough)
  · exact turnedAway hphase hexec htif fun hle => hshort.not_ge (hiff.mp hle)

/-- Of 3 and 4 on offer, 7 can be filled and 8 cannot. -/
theorem fok_exact_twoAsks :
    let b := (run 1 [.newOrder (dayLimit .sell 11 4 1), .newOrder (dayLimit .sell 10 3 2)]).1
    let order := { dayLimit .buy 11 7 3 with tif := .fok }
    let acceptable := (b.resting .sell).filter fun o => order.Reaches .sell o.price
    (7 ≤ openTotal acceptable → b.FilledAtOnce order (b.newOrder order)) ∧
    (openTotal acceptable < 7 → b.TurnedAway order (b.newOrder order)) ∧
    ∀ o ∈ (b.newOrder order).book.live, o.orderId ≠ b.nextOrderId :=
  fok_exact 1 [.newOrder (dayLimit .sell 11 4 1), .newOrder (dayLimit .sell 10 3 2)]
    { dayLimit .buy 11 7 3 with tif := .fok } rfl (fun s => by cases s <;> decide) (Or.inl rfl) rfl

end Book

end EuNEx
