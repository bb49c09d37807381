import EuNEx.Book.History
import EuNEx.Book.Opening
import EuNEx.Book.Priority

/-!
# What the auction executes

`uncross` fills the asks up to the auction price from the bids down to it. Of both sides as much is
drawn as can be executed at that price, best price first and in the order of the ids at a price.
-/

namespace EuNEx

open CallAuction (Curves)
open Greedy (Stock)

lemma Order.orderId_reduce (q : ℕ) (o : Order) :
    (Order.stock.reduce q o).orderId = o.orderId := rfl

/-- Something is open. -/
abbrev Order.isOpen (o : Order) : Bool := 0 < o.remainingQty

/-- Who trades how much: seller, buyer and quantity. -/
def Trade.parties (t : Trade) : ℕ × ℕ × ℕ := (t.sellOrderId, t.buyOrderId, t.quantity)

lemma traded_eq_taken (log : List BookEvent) (id : ℕ) :
    traded log id = Stock.taken id ((trades log).map Trade.parties) := by
  induction log with
  | nil => rfl
  | cons ev log ih =>
    have hsplit : traded (ev :: log) id = ev.tradedQty id + traded log id := rfl
    rw [hsplit, ih]
    cases ev with
    | trade t =>
      show _ = Stock.taken id (t.parties :: (trades log).map Trade.parties)
      rw [Trade.parties, Stock.taken_cons, BookEvent.tradedQty]
      simp only [or_comm]
    | entry o => exact Nat.zero_add _
    | exec r => exact Nat.zero_add _
    | exit o => exact Nat.zero_add _

namespace Book

variable {b : Book} {iop : ℤ} {out out' : Outcome} {ask : Order} {left : Option Order}

/-! ### The loops -/

/-- A fill loop leaves nobody out. -/
lemma exit_fillAsk (iop : ℤ) (ask : Order) (hOK : out.book.bids.OK) {o : Order}
    (ho : .exit o ∈ (fillAsk iop out ask).1.log) : .exit o ∈ out.log := by
  refine FillLoop.uncross.fill_invariant ⟨out, ask⟩ (fun _ => iop) hOK (stops_fillAsk iop)
    (P := fun m _ => .exit o ∈ m.log → .exit o ∈ out.log) ?_ (fun ho => ho) ho
  intro m done o' todo m' left traded hP _ ht hexit
  rw [ht.log] at hexit
  exact hP (by simpa [FillLoop.uncross] using hexit)

/-- The bids at or above a price, and the others. -/
def bidsFrom (iop : ℤ) (out : Outcome) : List Order :=
  out.book.bids.elems.filter fun o => iop ≤ o.price

def bidsBelow (iop : ℤ) (out : Outcome) : List Order :=
  out.book.bids.elems.filter fun o => !decide (iop ≤ o.price)

/-- What the auction does with some of the asks: they are filled from the bids. -/
structure Crossed (iop : ℤ) (out : Outcome) (asks : List Order) (out' : Outcome)
    (left : List Order) : Prop where
  ok : out'.book.bids.OK
  left : left = (Order.stock.fill asks (bidsFrom iop out)).1
  bidsFrom : bidsFrom iop out' = (Order.stock.fill asks (bidsFrom iop out)).2
  bidsBelow : bidsBelow iop out' = bidsBelow iop out
  exits : ∀ o, .exit o ∈ out'.log → .exit o ∈ out.log
  logged : ∃ ts, trades out'.log = trades out.log ++ ts ∧ (∀ t ∈ ts, t.price = iop) ∧
    ts.map Trade.parties = Order.stock.cross Order.orderId asks (Book.bidsFrom iop out)

lemma crossed_nil (hOK : out.book.bids.OK) : Crossed iop out [] out [] :=
  ⟨hOK, rfl, rfl, rfl, fun _ ho => ho, [], by simp, by simp, by simp⟩

lemma takeWhile_bids (hOK : out.book.bids.OK) (iop : ℤ) :
    (out.book.bids.elems.takeWhile fun o => iop ≤ o.price) = bidsFrom iop out :=
  (hOK.filter_eq_takeWhile (Side.initial_atLeast iop)).symm

lemma dropWhile_bids (hOK : out.book.bids.OK) (iop : ℤ) :
    (out.book.bids.elems.dropWhile fun o => iop ≤ o.price) = bidsBelow iop out :=
  (hOK.filter_not_eq_dropWhile (Side.initial_atLeast iop)).symm

/-- The trades of an ask are at the auction price. -/
lemma trades_of_writes {pieces : List (Order × ℕ)} {ts : List Trade}
    (h : List.Forall₂ (FillLoop.uncross.Writes (fun _ => iop) ask) pieces ts) :
    (∀ t ∈ ts, t.price = iop) ∧
      ts.map Trade.parties = pieces.map fun piece => (ask.orderId, piece.1.orderId, piece.2) := by
  induction h with
  | nil => exact ⟨by simp, rfl⟩
  | cons hwrite _ ih =>
    obtain ⟨b', i, hshrunk, rfl⟩ := hwrite
    refine ⟨fun t ht => ?_, ?_⟩
    · rcases List.mem_cons.mp ht with rfl | ht
      · rfl
      · exact ih.1 t ht
    · rw [List.map_cons, List.map_cons, ih.2, ← hshrunk.orderId]
      rfl

/-- One ask in the hands of the auction. -/
lemma crossed_turn (hOK : out.book.bids.OK) (hask : uncrossAsk iop out ask = some (out', left)) :
    Crossed iop out [ask] out' left.toList := by
  obtain ⟨m, bids, hfill, rfl, rfl⟩ := fillAsk_of_uncrossAsk hask
  have hok := FillLoop.uncross.fill_ok ⟨out, ask⟩ (fun _ => iop)
    (fun m bidPrice => bidPrice < iop || m.incoming.remainingQty = 0) hOK
  obtain ⟨rest, hrest, hleft, hincoming, ts, hts, hwrites⟩ := FillLoop.fill_draws
    .uncross (fun _ => iop) hOK (stops_fillAsk iop) ⟨out, ask⟩
  have hexits : ∀ o, .exit o ∈ (fillAsk iop out ask).1.log → .exit o ∈ out.log :=
    fun o ho => exit_fillAsk iop ask hOK ho
  rw [takeWhile_bids hOK] at hleft hincoming hwrites
  rw [dropWhile_bids hOK] at hrest
  rw [hfill] at hexits
  rw [show FillLoop.uncross.fill _ _ _ _ = (m, bids) from hfill] at hok hrest hincoming hts
  simp only at hok hrest hincoming hts hexits hleft hwrites
  obtain ⟨hprice, hparties⟩ := trades_of_writes hwrites
  set d := Order.stock.draw ask.remainingQty (bidsFrom iop out) with hd
  have hmissing : d.missing ≤ ask.remainingQty := by
    rw [hd, Stock.missing_draw]
    exact Nat.sub_le _ _
  have hfrom : ∀ o ∈ d.left, decide (iop ≤ o.price) = true :=
    Stock.left_forall (S := Order.stock) (P := fun o => decide (iop ≤ o.price) = true)
      (fun _ _ h => h) _ fun o ho => (List.mem_filter.mp ho).2
  have hbelow : ∀ o ∈ bidsBelow iop out, decide (iop ≤ o.price) = false := fun o ho => by
    simpa using (List.mem_filter.mp ho).2
  obtain ⟨hbidsFrom, hbidsBelow⟩ := Sorted.filter_append_parts hfrom hbelow
  rw [← hleft, ← hrest, hleft] at hbidsFrom
  rw [← hleft, ← hrest] at hbidsBelow
  refine ⟨hok, ?_, hbidsFrom, hbidsBelow, hexits, ts, hts, hprice, ?_⟩
  · rw [Stock.fill, Stock.fill, hincoming, List.append_nil]
    show _ = if d.missing = 0 then [] else [Ledger.fill ask (ask.remainingQty - d.missing)]
    have hreduce : ask.remainingQty - (ask.remainingQty - d.missing) = d.missing := by omega
    rw [Ledger.fill, hreduce]
    split <;> rfl
  · rw [hparties, Stock.cross_cons Order.orderId_reduce, Stock.cross_nil_left,
      List.append_nil]
    rfl

lemma Crossed.cons {asks left' : List Order} {out'' : Outcome} {left : List Order}
    (h : Crossed iop out [ask] out' left) (h' : Crossed iop out' asks out'' left') :
    Crossed iop out (ask :: asks) out'' (left ++ left') := by
  obtain ⟨ts, hts, hprice, hparties⟩ := h.logged
  obtain ⟨ts', hts', hprice', hparties'⟩ := h'.logged
  have hleft := h'.left
  have hfrom := h'.bidsFrom
  rw [h.bidsFrom] at hleft hfrom hparties'
  refine ⟨h'.ok, ?_, hfrom, h'.bidsBelow.trans h.bidsBelow, fun o ho => h.exits o (h'.exits o ho),
    ts ++ ts', ?_, ?_, ?_⟩
  · rw [h.left, hleft, Stock.fill, Stock.fill, Stock.fill, List.append_nil]
  · rw [hts', hts, List.append_assoc]
  · intro t ht
    rcases List.mem_append.mp ht with ht | ht
    · exact hprice t ht
    · exact hprice' t ht
  · rw [List.map_append, hparties, hparties',
      Stock.cross_cons_append Order.orderId_reduce ask asks]
    rfl

/-- The loop over the asks up to the auction price. -/
lemma sweep_crossed (iop : ℤ) (out : Outcome) (hOK : out.book.bids.OK) (asks : List Order) :
    ∃ left, (Sweep.sweep (Sweep.visitFlat Order.price (fun _ askPrice => askPrice > iop)
        fun _ => uncrossAsk iop) out asks).2 = left ++ asks.dropWhile (fun o => o.price ≤ iop) ∧
      Crossed iop out (asks.takeWhile fun o => o.price ≤ iop)
        (Sweep.sweep (Sweep.visitFlat Order.price (fun _ askPrice => askPrice > iop)
          fun _ => uncrossAsk iop) out asks).1 left := by
  induction asks generalizing out with
  | nil => exact ⟨[], rfl, crossed_nil hOK⟩
  | cons ask asks ih =>
    by_cases hprice : ask.price ≤ iop
    · cases hask : uncrossAsk iop out ask with
      | none => simp [uncrossAsk] at hask
      | some r =>
        obtain ⟨out', left⟩ := r
        have hflat : Sweep.visitFlat Order.price (fun _ askPrice => decide (askPrice > iop))
            (fun _ => uncrossAsk iop) out ask = some (out', left) := by
          rw [Sweep.visitFlat, if_neg (by simpa using hprice)]
          exact hask
        have hturn := crossed_turn hOK hask
        obtain ⟨rest, hrest, hcrossed⟩ := ih out' hturn.ok
        rw [Sweep.sweep_cons_go hflat, List.dropWhile_cons_of_pos (by simpa using hprice),
          List.takeWhile_cons_of_pos (by simpa using hprice), hrest, ← List.append_assoc]
        exact ⟨_, rfl, hturn.cons hcrossed⟩
    · have hflat : Sweep.visitFlat Order.price (fun _ askPrice => decide (askPrice > iop))
          (fun _ => uncrossAsk iop) out ask = none := by
        rw [Sweep.visitFlat, if_pos (by simpa using hprice)]
      rw [Sweep.sweep_cons_stop hflat, List.takeWhile_cons_of_neg (by simpa using hprice),
        List.dropWhile_cons_of_neg (by simpa using hprice)]
      exact ⟨[], rfl, crossed_nil hOK⟩

/-! ### Both sides of the book -/

/-- As much is drawn from both sides as can be executed at the auction price. -/
structure Executed (b : Book) (p : ℤ) (out : Outcome) : Prop where
  shape : out.book.Shape
  resting : ∀ s, (out.book.resting s).filter Order.isOpen
    = (Order.stock.draw (b.curves.volume p) (b.resting s)).left.filter Order.isOpen
  price : ∀ t ∈ trades out.log, t.price = p
  parties : (trades out.log).map Trade.parties = Order.stock.cross Order.orderId
    ((b.resting .sell).filter fun o => o.price ≤ p) ((b.resting .buy).filter fun o => p ≤ o.price)
  exits : ∀ o, .exit o ∉ out.log

/-- Drawing from the first part of a side, up to orders with nothing open. -/
lemma filter_left_append {orders rest : List Order} {q : ℕ} :
    ((Order.stock.draw q orders).left ++ rest).filter Order.isOpen
      = (Order.stock.draw (min q (openTotal orders)) (orders ++ rest)).left.filter
        Order.isOpen := by
  have hmin := Stock.filter_left_min (S := Order.stock) q orders
  have hz : min q (openTotal orders) - Order.stock.total orders = 0 :=
    Nat.sub_eq_zero_of_le (min_le_right _ _)
  rw [Stock.draw_append, hz, Stock.draw_zero, List.filter_append, List.filter_append]
  exact congrArg (· ++ rest.filter Order.isOpen) hmin.symm

lemma bids_split (out : Outcome) (hOK : out.book.bids.OK) (iop : ℤ) :
    out.book.bids.elems = bidsFrom iop out ++ bidsBelow iop out := by
  rw [← takeWhile_bids hOK, ← dropWhile_bids hOK, List.takeWhile_append_dropWhile]

section

variable {offers left rest : List Order}

/-- Of the bids as much is drawn as can be executed. -/
lemma Crossed.bids_left (h : Crossed iop ⟨b, []⟩ offers out left) (hbids : b.bids.OK)
    (hsupply : openTotal offers = b.curves.supply iop) :
    (out.book.resting .buy).filter Order.isOpen
      = (Order.stock.draw (b.curves.volume iop) (b.resting .buy)).left.filter Order.isOpen := by
  have hall : b.resting .buy = Book.bidsFrom iop ⟨b, []⟩ ++ Book.bidsBelow iop ⟨b, []⟩ :=
    bids_split ⟨b, []⟩ hbids iop
  have hdemand : openTotal (Book.bidsFrom iop ⟨b, []⟩) = b.curves.demand iop := rfl
  have hleft := h.bidsFrom
  rw [Stock.fill_snd] at hleft
  show out.book.bids.elems.filter Order.isOpen = _
  rw [bids_split out h.ok iop, h.bidsBelow, hleft, filter_left_append, hdemand,
    show Order.stock.total offers = b.curves.supply iop from hsupply, min_comm, hall]
  rfl

/-- And so it is of the asks. -/
lemma Crossed.asks_left (h : Crossed iop ⟨b, []⟩ offers out left)
    (hsupply : openTotal offers = b.curves.supply iop) (hall : b.resting .sell = offers ++ rest) :
    (left ++ rest).filter Order.isOpen
      = (Order.stock.draw (b.curves.volume iop) (b.resting .sell)).left.filter Order.isOpen := by
  have hfill := Stock.fill_fst (S := Order.stock) offers (Book.bidsFrom iop ⟨b, []⟩)
  rw [← h.left] at hfill
  have hfilled : left.filter Order.isOpen
      = (Order.stock.draw (b.curves.demand iop) offers).left.filter Order.isOpen := hfill
  rw [List.filter_append, hfilled, ← List.filter_append, filter_left_append, hsupply, ← hall]
  rfl

end

lemma Shape.executed_uncross (h : b.Shape) (hiop : b.getIOP ≠ 0) :
    b.Executed b.getIOP b.uncross := by
  have hshape := uncross_shape h
  have hbids := h.levels .buy
  rw [uncross_eq hiop] at hshape ⊢
  obtain ⟨left, hasks, hcrossed⟩ :=
    sweep_crossed b.getIOP ⟨b, []⟩ hbids (b.resting .sell)
  rw [fillAsks_flat h] at hasks hcrossed
  simp only at hasks hcrossed
  set out := (fillAsks b.getIOP b).1 with hout
  set p := b.getIOP with hp
  set offers := (b.resting .sell).takeWhile fun o => decide (o.price ≤ p) with hoffers
  have hfilter : offers = (b.resting .sell).filter fun o => decide (o.price ≤ p) :=
    ((h.levels .sell).filter_eq_takeWhile (Side.initial_atMost p)).symm
  have hsupply : openTotal offers = b.curves.supply p := by
    rw [hfilter]
    rfl
  refine ⟨hshape, ?_, ?_, ?_, fun o ho => by simpa using hcrossed.exits o ho⟩
  · intro s
    cases s with
    | buy => exact hcrossed.bids_left hbids hsupply
    | sell =>
      show (fillAsks p b).2.elems.filter Order.isOpen = _
      rw [hasks]
      exact hcrossed.asks_left hsupply List.takeWhile_append_dropWhile.symm
  · obtain ⟨ts, hts, hprice, -⟩ := hcrossed.logged
    have hlog : trades out.log = ts := hts
    intro t ht
    exact hprice t (hlog ▸ ht)
  · obtain ⟨ts, hts, -, hparties⟩ := hcrossed.logged
    have hlog : trades out.log = ts := hts
    show (trades out.log).map Trade.parties = _
    rw [hlog, hparties, hfilter]
    rfl

namespace Executed

variable {p : ℤ}

lemma sum_trades (h : b.Executed p out) :
    ((trades out.log).map Trade.quantity).sum = b.curves.volume p := by
  have hsum := Stock.sum_cross Order.orderId_reduce
    ((b.resting .sell).filter fun o => o.price ≤ p) ((b.resting .buy).filter fun o => p ≤ o.price)
  rw [← h.parties, List.map_map, min_comm] at hsum
  exact hsum

/-! ### What is left -/

lemma openTotal_isOpen (orders : List Order) :
    openTotal (orders.filter Order.isOpen) = openTotal orders := by
  induction orders with
  | nil => rfl
  | cons o orders ih =>
    rw [openTotal_cons, List.filter_cons]
    split
    · rw [openTotal_cons, ih]
    · rename_i hclosed
      have hzero : o.remainingQty = 0 := by simpa using hclosed
      rw [ih, hzero, Nat.zero_add]

/-- Of the orders of a side up to some price, as much is gone as was executed. -/
lemma openTotal_left (h : b.Executed p out) (hb : b.Shape) {s : Side} {takes : ℤ → Bool}
    (htakes : s.Initial takes) :
    openTotal ((out.book.resting s).filter fun o => takes o.price)
      = openTotal ((b.resting s).filter fun o => takes o.price) - b.curves.volume p := by
  have hopen : ∀ orders : List Order, openTotal (orders.filter fun o => takes o.price)
      = openTotal ((orders.filter Order.isOpen).filter fun o => takes o.price) := by
    intro orders
    rw [List.filter_comm, openTotal_isOpen]
  have hdraw := Stock.total_filter_left (S := Order.stock) (p := fun o => takes o.price)
    (fun _ _ hoo' ho' => htakes.of_sorted hoo' ho') (fun _ _ => rfl) (b.curves.volume p)
    (hb.levels s).elems_sorted
  rw [hopen, h.resting s, ← hopen]
  exact hdraw

lemma demand_left (h : b.Executed p out) (hb : b.Shape) (q : ℤ) :
    out.book.curves.demand q = b.curves.demand q - b.curves.volume p :=
  h.openTotal_left hb (Side.initial_atLeast q)

lemma supply_left (h : b.Executed p out) (hb : b.Shape) (q : ℤ) :
    out.book.curves.supply q = b.curves.supply q - b.curves.volume p :=
  h.openTotal_left hb (Side.initial_atMost q)

/-- Where the auction price has the greatest volume, nothing can be executed after the auction. -/
lemma volume_left (h : b.Executed p out) (hb : b.Shape)
    (hbest : ∀ q, b.curves.volume q ≤ b.curves.volume p) (q : ℤ) :
    out.book.curves.volume q = 0 := by
  have hle := hbest q
  rw [Curves.volume, h.demand_left hb, h.supply_left hb]
  simp only [Curves.volume] at hle ⊢
  omega

end Executed

/-! ### What becomes of an order -/

lemma remainingQty_le {orders : List Order} {o : Order} (ho : o ∈ orders) :
    o.remainingQty ≤ openTotal orders :=
  List.single_le_sum (fun _ _ => Nat.zero_le _) _ (List.mem_map_of_mem ho)

/-- A buyer and a seller whose limits are compatible can trade. -/
lemma volume_pos {bid ask : Order} (hbid : bid ∈ b.resting .buy) (hask : ask ∈ b.resting .sell)
    (hbuy : 0 < bid.remainingQty) (hsell : 0 < ask.remainingQty) (hcross : ask.price ≤ bid.price) :
    0 < b.curves.volume bid.price := by
  apply lt_min
  · exact hbuy.trans_le (remainingQty_le (List.mem_filter.mpr ⟨hbid, decide_eq_true le_rfl⟩))
  · exact hsell.trans_le (remainingQty_le (List.mem_filter.mpr ⟨hask, decide_eq_true hcross⟩))

section

variable {hist : List BookEvent} {s : Side} {o o' : Order}

/-- Of a resting order, only the quantity and the status change. -/
lemma Sound.resting_of_id (h : b.Sound hist) {log : List BookEvent}
    (h' : out.book.Sound (hist ++ log)) (ho : o ∈ b.resting s) (ho' : o' ∈ out.book.live)
    (hid : o'.orderId = o.orderId) : o' ∈ out.book.resting s ∧ o'.price = o.price := by
  have hlive : o ∈ (b.ledger hist).live := mem_live.mpr (Or.inl ⟨s, ho⟩)
  obtain ⟨e, he, htracks⟩ := h.laws.ids.entered o hlive
  have htracks' : Ledger.Tracks e o' := h'.laws.ids.tracks_of_entry ho'
    (List.mem_append_left _ he) (htracks.orderId.symm.trans hid.symm)
  have hprice : o'.price = o.price := htracks'.price.trans htracks.price.symm
  have htype : o'.ordType = o.ordType := htracks'.ordType.trans htracks.ordType.symm
  refine ⟨?_, hprice⟩
  rcases mem_live.mp ho' with ⟨s', hs'⟩ | hparked
  · obtain rfl : s' = s := by
      rw [← h'.shape.side hs', ← h.shape.side ho, htracks'.eq, htracks.eq]
    exact hs'
  · have hstop := h'.shape.parked o' hparked
    rw [htype, h.shape.executable ho] at hstop
    cases hstop

/-- What an order has open before the auction, it has traded or still has open afterwards. -/
lemma Sound.charged (h : b.Sound hist) (h' : out.book.Sound (hist ++ out.log))
    (hexits : ∀ o, .exit o ∉ out.log) (ho : o ∈ b.resting s) :
    traded out.log o.orderId + out.book.openQty o.orderId = o.remainingQty := by
  have hlive : o ∈ (b.ledger hist).live := mem_live.mpr (Or.inl ⟨s, ho⟩)
  obtain ⟨e, he, htracks⟩ := h.laws.ids.entered o hlive
  obtain ⟨hbefore, hexited⟩ := h.laws.account.live o hlive
  have hafter := Ledger.Account.balance h'.laws.ids h'.laws.account (List.mem_append_left _ he)
  have hnone : exited out.log o.orderId = 0 := exited_eq_zero fun o' ho' => absurd ho' (hexits o')
  simp only [ledger] at hbefore hexited hafter
  rw [h'.held_live, ← htracks.orderId, ← htracks.quantity, traded_append, exited_append, hexited,
    hnone] at hafter
  omega

lemma Sound.openQty_eq_zero (h : b.Sound hist) {id : ℕ}
    (hnone : ∀ o ∈ b.live, o.orderId = id → o.remainingQty = 0) : b.openQty id = 0 := by
  rw [← h.held_live]
  refine Multiset.sum_eq_zero fun q hq => ?_
  obtain ⟨o, ho, rfl⟩ := Multiset.mem_map.mp hq
  split
  · rename_i hid
    exact hnone o ho hid
  · rfl

/-- An order is used up if nothing is left of its side at its price or better. -/
lemma Sound.usedUp (h : b.Sound hist) (h' : out.book.Sound (hist ++ out.log)) (ho : o ∈ b.resting s)
    (takes : ℤ → Bool) (htakes : takes o.price = true)
    (hleft : openTotal ((out.book.resting s).filter fun o => takes o.price) = 0) :
    out.book.openQty o.orderId = 0 := by
  apply h'.openQty_eq_zero
  intro o' ho' hid
  obtain ⟨hrests, hprice⟩ := h.resting_of_id h' ho ho' hid
  rw [← hprice] at htakes
  have hle := remainingQty_le (List.mem_filter.mpr ⟨hrests, htakes⟩ :
    o' ∈ (out.book.resting s).filter fun o => takes o.price)
  rw [hleft] at hle
  exact Nat.le_zero.mp hle

end

/-! ### The auction as a whole -/

/-- The order of side `s` in a trade. -/
def orderIdOf (t : Trade) : Side → ℕ
  | .buy => t.buyOrderId
  | .sell => t.sellOrderId

/-- What an auction at a price has to do to a book. -/
structure Cleared (b : Book) (p : ℤ) (out : Outcome) : Prop where
  price : ∀ t ∈ trades out.log, t.price = p
  volume : ((trades out.log).map Trade.quantity).sum = b.curves.volume p
  greatest : ∀ q, b.curves.volume q ≤ b.curves.volume p
  parties : ∀ t ∈ trades out.log, ∀ s, ∃ o ∈ b.resting s, o.orderId = orderIdOf t s
  charged : ∀ s, ∀ o ∈ b.resting s,
    traded out.log o.orderId + out.book.openQty o.orderId = o.remainingQty
  /-- When an order trades, all orders of its side that come before it are used up. -/
  fair : ∀ pre t post, out.log = pre ++ .trade t :: post → ∀ s, ∀ o ∈ b.resting s,
    ∀ o' ∈ b.resting s, o'.orderId = orderIdOf t s → o.Priority s o' →
      traded pre o.orderId = o.remainingQty
  uncrossed : ∀ bid ∈ out.book.resting .buy, ∀ ask ∈ out.book.resting .sell,
    0 < bid.remainingQty → 0 < ask.remainingQty → bid.price < ask.price
  bids : ∀ o ∈ b.resting .buy, p < o.price → traded out.log o.orderId = o.remainingQty
  asks : ∀ o ∈ b.resting .sell, o.price < p → traded out.log o.orderId = o.remainingQty
  again : out.book.uncross = ⟨out.book, []⟩

/-- Sums in 64 bits are no greater than the true ones. -/
lemma Shape.iopVolume_le (h : b.Shape) (p : ℤ) : b.iopCurves.volume p ≤ b.curves.volume p := by
  rw [Curves.volume, Curves.volume, iopCurves_demand h, iopCurves_supply h]
  exact min_le_min (Nat.mod_le _ _) (Nat.mod_le _ _)

/-- Where nothing can be executed, the auction does nothing. -/
lemma Shape.uncross_of_volume (h : b.Shape) (hzero : ∀ p, b.curves.volume p = 0) :
    b.uncross = ⟨b, []⟩ := by
  have hiop : b.getIOP = 0 := by
    rcases b.getIOP_spec with ⟨hiop, -⟩ | hbest
    · exact hiop
    · have hle := h.iopVolume_le b.getIOP
      rw [hzero] at hle
      exact absurd hbest.pos hle.not_gt
  rw [uncross, if_pos hiop]

/-- Of the orders of a side up to some price, one that comes before another stands in front. -/
lemma Shape.front {s : Side} {o o' : Order} (h : b.Shape) {takes : ℤ → Bool}
    (htakes : s.Initial takes) (ho : o ∈ b.resting s) (ho' : o' ∈ b.resting s)
    (hbefore : o.Priority s o')
    (hmem : o'.orderId ∈ ((b.resting s).filter fun o => takes o.price).map Order.orderId) :
    o ∈ (b.resting s).filter (fun o => takes o.price) ∧
      [o.orderId, o'.orderId].Sublist
        (((b.resting s).filter fun o => takes o.price).map Order.orderId) := by
  obtain ⟨o₁, ho₁, hid⟩ := List.mem_map.mp hmem
  obtain ⟨hrests, hprice⟩ := List.mem_filter.mp ho₁
  obtain rfl : o₁ = o' := List.inj_on_of_nodup_map (h.nodup s) hrests ho' hid
  have hsorted : o.price = o₁.price ∨ s.before o.price o₁.price := by
    rcases hbefore with hbetter | ⟨heq, -⟩
    · exact Or.inr hbetter
    · exact Or.inl heq
  have hin : o ∈ (b.resting s).filter fun o => takes o.price :=
    List.mem_filter.mpr ⟨ho, htakes.of_sorted hsorted hprice⟩
  have hpair := Sorted.pair_sublist (fun _ _ => Order.Priority.asymm)
    ((h.levels s).elems_priority.filter fun o => takes o.price) hin ho₁ hbefore
  exact ⟨hin, hpair.map Order.orderId⟩

section

variable {p : ℤ} {hist : List BookEvent} {t : Trade} {pre post : List BookEvent}

lemma Executed.parties_mem (hx : b.Executed p out) (ht : t ∈ trades out.log) :
    t.sellOrderId ∈ ((b.resting .sell).filter fun o => o.price ≤ p).map Order.orderId ∧
      t.buyOrderId ∈ ((b.resting .buy).filter fun o => p ≤ o.price).map Order.orderId := by
  apply Stock.mem_of_mem_cross Order.orderId_reduce (q := t.quantity)
  rw [← hx.parties]
  exact List.mem_map_of_mem (f := Trade.parties) ht

/-- No order rests on both sides. -/
lemma Sound.disjoint_resting (h : b.Sound hist) :
    ((b.resting .sell).map Order.orderId).Disjoint ((b.resting .buy).map Order.orderId) := by
  have hids := h.repInv.distinct
  rw [orders, List.append_assoc, List.map_append, List.map_append, List.nodup_append] at hids
  exact fun id hsell hbuy => hids.2.2 id hbuy id (List.mem_append_left _ hsell) rfl

lemma Executed.fair (hx : b.Executed p out) (h : b.Sound hist)
    (hsplit : out.log = pre ++ .trade t :: post) {s : Side} {o o' : Order} (ho : o ∈ b.resting s)
    (ho' : o' ∈ b.resting s) (hid : o'.orderId = orderIdOf t s) (hbefore : o.Priority s o') :
    traded pre o.orderId = o.remainingQty := by
  have ht : t ∈ trades out.log := mem_trades.mpr (by simp [hsplit])
  obtain ⟨hseller, hbuyer⟩ := hx.parties_mem ht
  have hcross : Order.stock.cross Order.orderId ((b.resting .sell).filter fun o => o.price ≤ p)
      ((b.resting .buy).filter fun o => p ≤ o.price) = (trades pre).map Trade.parties
        ++ (t.sellOrderId, t.buyOrderId, t.quantity) :: (trades post).map Trade.parties := by
    rw [← hx.parties, hsplit, trades_append, List.map_append]
    rfl
  have hnodup : ∀ s (takes : Order → Bool),
      (((b.resting s).filter takes).map Order.orderId).Nodup := fun s takes =>
    (h.shape.nodup s).sublist (List.filter_sublist.map Order.orderId)
  have hdisj : ∀ takes takes' : Order → Bool, (((b.resting .sell).filter takes).map
      Order.orderId).Disjoint (((b.resting .buy).filter takes').map Order.orderId) :=
    fun takes takes' id hsell hbuy => h.disjoint_resting
      ((List.filter_sublist.map _).subset hsell) ((List.filter_sublist.map _).subset hbuy)
  obtain ⟨hasks, hbids⟩ := Stock.cross_fair Order.orderId_reduce (hnodup _ _)
    (hnodup _ _) (hdisj _ _) hcross
  rw [traded_eq_taken]
  cases s with
  | buy =>
    obtain ⟨hin, hfront⟩ := h.shape.front (Side.initial_atLeast p) ho ho' hbefore (hid ▸ hbuyer)
    rw [hid] at hfront
    exact hbids o hin hfront
  | sell =>
    obtain ⟨hin, hfront⟩ := h.shape.front (Side.initial_atMost p) ho ho' hbefore (hid ▸ hseller)
    rw [hid] at hfront
    exact hasks o hin hfront

lemma Sound.cleared (h : b.Sound hist) (hiop : b.getIOP ≠ 0)
    (hbest : b.curves.IsBest b.candidatePrices b.getIOP) : b.Cleared b.getIOP b.uncross := by
  have hx := h.shape.executed_uncross hiop
  have h' : b.uncross.book.Sound (hist ++ b.uncross.log) := h.step .uncross
  have hoptimal := h.shape.optimalPrice hbest
  have hcharged : ∀ s, ∀ o ∈ b.resting s,
      traded b.uncross.log o.orderId + b.uncross.book.openQty o.orderId = o.remainingQty :=
    fun s o ho => h.charged h' hx.exits ho
  have hsloped : b.curves.Sloped := Curves.ofOrders_sloped _ _ _ _
  have hbeats : ∀ s, ∀ o ∈ b.resting s, ¬b.curves.Beats o.price b.getIOP := fun s o ho =>
    hbest.best o.price (mem_candidatePrices.mpr (h.shape.isPrice_iff.mpr ⟨s, o, ho, rfl⟩))
  have hzero := hx.volume_left h.shape hoptimal.volume
  refine ⟨hx.price, hx.sum_trades, hoptimal.volume, ?_, hcharged, ?_, ?_, ?_, ?_, ?_⟩
  · intro t ht s
    obtain ⟨hseller, hbuyer⟩ := hx.parties_mem ht
    cases s with
    | buy =>
      obtain ⟨o, ho, hid⟩ := List.mem_map.mp hbuyer
      exact ⟨o, (List.mem_filter.mp ho).1, hid⟩
    | sell =>
      obtain ⟨o, ho, hid⟩ := List.mem_map.mp hseller
      exact ⟨o, (List.mem_filter.mp ho).1, hid⟩
  · intro pre t post hsplit s o ho o' ho' hid hbefore
    exact hx.fair h hsplit ho ho' hid hbefore
  · intro bid hbid ask hask hbuy hsell
    by_contra hcross
    have hpos := volume_pos hbid hask hbuy hsell (not_lt.mp hcross)
    rw [hzero] at hpos
    exact absurd hpos (lt_irrefl 0)
  · intro o ho hlt
    have hnone : b.uncross.book.curves.demand o.price = 0 := by
      rw [hx.demand_left h.shape]
      exact Nat.sub_eq_zero_of_le (hsloped.demand_le (hbeats _ o ho) hlt)
    have hused := h.usedUp h' ho (fun x => o.price ≤ x) (decide_eq_true le_rfl) hnone
    rw [← hcharged _ o ho, hused, Nat.add_zero]
  · intro o ho hlt
    have hnone : b.uncross.book.curves.supply o.price = 0 := by
      rw [hx.supply_left h.shape]
      exact Nat.sub_eq_zero_of_le (hsloped.supply_le (hbeats _ o ho) hlt)
    have hused := h.usedUp h' ho (fun x => x ≤ o.price) (decide_eq_true le_rfl) hnone
    rw [← hcharged _ o ho, hused, Nat.add_zero]
  · exact h'.shape.uncross_of_volume hzero

end

/-- As long as the open quantity of each side fits 64 bits, `uncross` executes as much as any price
allows at one price, best price and first order first, and leaves nothing to execute. -/
theorem uncross_optimal (symbolIdx : ℕ) (ops : List BookOp)
    (hfits : ∀ s, openTotal ((run symbolIdx ops).1.resting s) < 2 ^ 64)
    (hiop : (run symbolIdx ops).1.getIOP ≠ 0) :
    (run symbolIdx ops).1.Cleared (run symbolIdx ops).1.getIOP (run symbolIdx ops).1.uncross := by
  have h := sound_run symbolIdx ops
  apply h.cleared hiop
  rcases (run symbolIdx ops).1.getIOP_spec with ⟨hzero, -⟩ | hbest
  · exact absurd hzero hiop
  · rwa [iopCurves_eq h.shape hfits] at hbest

/-- A bid for 5 at 102 and an offer of 5 at 100 trade at 100. -/
theorem uncross_optimal_twoOrders :
    let b := (run 1 [.setPhase .preOpen, .newOrder (dayLimit .buy 102 5 1),
      .newOrder (dayLimit .sell 100 5 2)]).1
    b.Cleared b.getIOP b.uncross :=
  uncross_optimal 1 [.setPhase .preOpen, .newOrder (dayLimit .buy 102 5 1),
    .newOrder (dayLimit .sell 100 5 2)] (fun s => by cases s <;> decide) (by decide)

/-! ### An auction at no price -/

/-- Demand and supply in 64 bits. -/
def wrapped (b : Book) : Curves ℤ where
  demand p := b.curves.demand p % 2 ^ 64
  supply p := b.curves.supply p % 2 ^ 64

lemma Shape.iopCurves_eq_wrapped (h : b.Shape) : b.iopCurves = b.wrapped := by
  rw [wrapped, ← funext (iopCurves_demand h), ← funext (iopCurves_supply h)]

/-- Some order price other than 0 has a volume, and 0 is not preferred to it. -/
def OpensAway (b : Book) : Prop :=
  ∃ p, p ≠ 0 ∧ b.IsPrice p ∧ 0 < b.wrapped.volume p ∧ (b.IsPrice 0 → ¬b.wrapped.Beats 0 p)

lemma Shape.getIOP_ne_zero_iff (h : b.Shape) : b.getIOP ≠ 0 ↔ b.OpensAway := by
  have hspec := b.getIOP_spec
  rw [h.iopCurves_eq_wrapped] at hspec
  constructor
  · intro hiop
    rcases hspec with ⟨hzero, -⟩ | hbest
    · exact absurd hzero hiop
    · exact ⟨b.getIOP, hiop, mem_candidatePrices.mp hbest.mem, hbest.pos,
        fun hprice => hbest.best 0 (mem_candidatePrices.mpr hprice)⟩
  · rintro ⟨p, hne, hprice, hpos, hzero⟩ hiop
    rcases hspec with ⟨-, hnone⟩ | hbest
    · rw [hnone p hprice] at hpos
      exact absurd hpos (lt_irrefl 0)
    · rw [hiop] at hbest
      rcases Curves.beats_or_beats hne with hbeats | hbeats
      · exact hbest.best p (mem_candidatePrices.mpr hprice) hbeats
      · exact hzero (mem_candidatePrices.mp hbest.mem) hbeats

/-- The auction trades unless the price is 0. -/
lemma Shape.trades_uncross_iff (h : b.Shape) : trades b.uncross.log ≠ [] ↔ b.getIOP ≠ 0 := by
  constructor
  · intro htrades hiop
    rw [uncross, if_pos hiop] at htrades
    exact htrades rfl
  · intro hiop hnone
    have hsum := (h.executed_uncross hiop).sum_trades
    rw [hnone] at hsum
    rcases b.getIOP_spec with ⟨hzero, -⟩ | hbest
    · exact hiop hzero
    · exact absurd (hbest.pos.trans_le (h.iopVolume_le _)) hsum.ge.not_gt

/-- An auction in which something can be executed trades if and only if it opens at a price other
than 0. -/
theorem uncross_trades_iff (symbolIdx : ℕ) (ops : List BookOp) :
    let b := (run symbolIdx ops).1
    ((∃ p, 0 < b.curves.volume p) → trades b.uncross.log ≠ []) ↔
      ((∃ p, 0 < b.curves.volume p) → b.OpensAway) := by
  intro b
  have h : b.Shape := (sound_run symbolIdx ops).shape
  rw [h.trades_uncross_iff, h.getIOP_ne_zero_iff]

/-- Two market orders for 5 meet at 0, and nothing is executed. -/
theorem uncross_trades_iff_marketOrders :
    let b := (run 1 [.setPhase .preOpen,
      .newOrder { dayLimit .buy 0 5 1 with ordType := .market },
      .newOrder { dayLimit .sell 0 5 2 with ordType := .market }]).1
    b.curves.volume 0 = 5 ∧ b.getIOP = 0 ∧ trades b.uncross.log = [] := by
  decide

end Book

end EuNEx
