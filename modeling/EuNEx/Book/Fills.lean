import EuNEx.Book.Refinement

/-!
# The fills of an order

The trades that a new order makes, one by one: the resting orders it is filled from, each at its
own price, and what is left of the order in the end. The fill-or-kill check never overestimates
what is there, so an order that passes it is filled.
-/

namespace EuNEx

/-- The trade fills the order with this id from the resting order `o`. -/
structure Filled (id : ℕ) (o : Order) (t : Trade) : Prop where
  price : t.price = o.price
  quantity : t.quantity = 0 ↔ o.remainingQty = 0
  party : (t.buyOrderId = id ∧ t.sellOrderId = o.orderId) ∨
    (t.buyOrderId = o.orderId ∧ t.sellOrderId = id)

lemma exists_filled {id : ℕ} {orders : List Order} {ts : List Trade} {t : Trade}
    (h : List.Forall₂ (Filled id) orders ts) (ht : t ∈ ts) : ∃ o ∈ orders, Filled id o t := by
  induction h with
  | nil => cases ht
  | cons hfilled _ ih =>
    rcases List.mem_cons.mp ht with rfl | ht
    · exact ⟨_, List.mem_cons_self, hfilled⟩
    · obtain ⟨o, ho, hf⟩ := ih ht
      exact ⟨o, List.mem_cons_of_mem _ ho, hf⟩

/-- The quantity open in a list of orders. -/
def openTotal (orders : List Order) : ℕ := (orders.map Order.remainingQty).sum

@[simp] lemma openTotal_nil : openTotal [] = 0 := rfl

@[simp] lemma openTotal_cons (o : Order) (orders : List Order) :
    openTotal (o :: orders) = o.remainingQty + openTotal orders := rfl

@[simp] lemma openTotal_append (orders orders' : List Order) :
    openTotal (orders ++ orders') = openTotal orders + openTotal orders' := by simp [openTotal]

/-- The resting orders of side `s`, best first, that are within the limit of an order. -/
def Order.within (o : Order) (s : Side) (orders : List Order) : List Order :=
  orders.takeWhile fun o' => o.Reaches s o'.price

namespace FillLoop

/-- The two orders of a turn are the parties of its trade. -/
def Parties (loop : FillLoop) : Prop := ∀ b (incoming o : Order) p traded,
  ((loop.trade b incoming o p traded).buyOrderId = incoming.orderId ∧
    (loop.trade b incoming o p traded).sellOrderId = o.orderId) ∨
  ((loop.trade b incoming o p traded).buyOrderId = o.orderId ∧
    (loop.trade b incoming o p traded).sellOrderId = incoming.orderId)

variable {loop : FillLoop} {m m' m'' : Matching} {s : Side} {levels : Levels s}
  {stop : Matching → ℤ → Bool} {reach : Order → ℤ → Prop} [∀ o p, Decidable (reach o p)]

/-- How far the loop has come from `m`: it has traded with the first of `orders`, and `todo` is
what is left of them. -/
structure Underway (reach : Order → ℤ → Prop) [∀ o p, Decidable (reach o p)] (m : Matching)
    (orders : List Order) (m' : Matching) (todo : List Order) : Prop where
  shrunk : m.incoming.Shrunk m'.incoming
  trades : ∃ filled ts, trades m'.log = trades m.log ++ ts ∧
    List.Forall₂ (Filled m.incoming.orderId) filled ts ∧
    filledFrom m.incoming.remainingQty (orders.takeWhile fun o => reach m.incoming o.price)
      = filled ++ filledFrom m'.incoming.remainingQty
        (todo.takeWhile fun o => reach m.incoming o.price)
  remaining : m.incoming.remainingQty
      - openTotal (orders.takeWhile fun o => reach m.incoming o.price)
    = m'.incoming.remainingQty - openTotal (todo.takeWhile fun o => reach m.incoming o.price)

variable {orders todo : List Order} {o : Order} {left : Option Order} {traded : ℕ}

/-- A turn trades with the next order. -/
lemma Underway.turn (h : Underway reach m orders m' (o :: todo)) (hreach : reach m.incoming o.price)
    (ht : loop.Turn o.price m' m'' o left traded) (hfair : loop.Fair s) (hparty : loop.Parties)
    (hrep : loop.reportsIncoming = false) : Underway reach m orders m'' todo := by
  obtain ⟨hinc, ⟨filled, ts, hlog, hfilled, hall⟩, hsum⟩ := h
  have hopen := ht.open'
  have hrem : m''.incoming.remainingQty = m'.incoming.remainingQty - o.remainingQty := by
    rw [ht.incoming, ht.qty_eq]
    show m'.incoming.remainingQty - _ = _
    omega
  set t := loop.trade m'.book m'.incoming o o.price traded with htrade
  have hnew : Filled m.incoming.orderId o t := by
    refine ⟨hfair.price _ _ _ _ _, ?_, ?_⟩
    · rw [htrade, hfair.quantity, ht.qty_eq]
      omega
    · rw [← hinc.orderId]
      exact hparty _ _ _ _ _
  refine ⟨hinc.trans ht.incoming_shrunk, ⟨filled ++ [o], ts ++ [t], ?_, ?_, ?_⟩, ?_⟩
  · rw [ht.log, trades_append, trades_append, hlog]
    simp [hrep, EuNEx.trades, BookEvent.trade?, htrade]
  · exact List.rel_append hfilled (.cons hnew .nil)
  · rw [hall, List.takeWhile_cons_of_pos (by simpa using hreach), filledFrom, if_neg hopen, hrem,
      List.append_assoc, List.singleton_append]
  · rw [hsum, List.takeWhile_cons_of_pos (by simpa using hreach), openTotal_cons, hrem,
      Nat.sub_sub]

/-- The loop ends when the order is filled or nothing is left within reach. -/
lemma Underway.ended (h : Underway reach m orders m' todo)
    (hexit : ∀ o ∈ todo.head?, m'.incoming.remainingQty ≠ 0 → ¬reach m.incoming o.price) :
    m'.incoming.remainingQty = 0 ∨ (todo.takeWhile fun o => reach m.incoming o.price) = [] := by
  by_cases hz : m'.incoming.remainingQty = 0
  · exact Or.inl hz
  · apply Or.inr
    cases todo with
    | nil => rfl
    | cons o todo => exact List.takeWhile_cons_of_neg (by simpa using hexit o rfl hz)

/-- The loop trades with the orders that the incoming quantity is filled from, of those within
reach, and takes from the incoming order what they have. -/
theorem fill_trades (loop : FillLoop) (m : Matching) (hOK : levels.OK) (hstop : Stops stop reach)
    (hfair : loop.Fair s) (hparty : loop.Parties) (hrep : loop.reportsIncoming = false) :
    (∃ ts, trades (loop.fill stop id m levels).1.log = trades m.log ++ ts ∧
      List.Forall₂ (Filled m.incoming.orderId) (filledFrom m.incoming.remainingQty
        (levels.elems.takeWhile fun o => reach m.incoming o.price)) ts) ∧
    (loop.fill stop id m levels).1.incoming.remainingQty = m.incoming.remainingQty
      - openTotal (levels.elems.takeWhile fun o => reach m.incoming o.price) := by
  have hstart : Underway reach m levels.elems m levels.elems :=
    ⟨.refl _, ⟨[], [], (List.append_nil _).symm, .nil, rfl⟩, rfl⟩
  obtain ⟨done, todo, -, hunder, hexit⟩ := fill_rule loop m id hOK hstop
    (P := fun m' _ todo => Underway reach m levels.elems m' todo)
    (fun m' done o todo m'' left traded h hreach ht =>
      h.turn ((hstop.shrunk _ h.shrunk).mp hreach) ht hfair hparty hrep) hstart
  have hlast := hunder.ended fun o ho hne => mt (hstop.shrunk _ hunder.shrunk).mpr (hexit o ho hne)
  obtain ⟨-, ⟨filled, ts, hlog, hfilled, hall⟩, hsum⟩ := hunder
  refine ⟨⟨ts, hlog, ?_⟩, ?_⟩
  · have hrest : filledFrom (loop.fill stop id m levels).1.incoming.remainingQty
        (todo.takeWhile fun o => reach m.incoming o.price) = [] := by
      rcases hlast with hz | hnil
      · rw [hz, filledFrom_zero]
      · rw [hnil, filledFrom]
    rw [hall, hrest, List.append_nil]
    exact hfilled
  · rw [hsum]
    rcases hlast with hz | hnil
    · rw [hz, Nat.zero_sub]
    · rw [hnil, openTotal_nil, Nat.sub_zero]

end FillLoop

namespace Matching

variable {m : Matching}

/-- What matching against side `s` takes from it. -/
structure Consumes (s : Side) (m m' : Matching) : Prop where
  trades : ∃ ts, trades m'.log = trades m.log ++ ts ∧
    List.Forall₂ (Filled m.incoming.orderId) (m.incoming.fills s (m.book.resting s)) ts
  remaining : m'.incoming.remainingQty
    = m.incoming.remainingQty - openTotal (m.incoming.within s (m.book.resting s))

lemma sweepSide_consumes {s : Side} {beyond : ℤ → ℤ → Bool} {loop : FillLoop}
    (hOK : (m.book.levels s).OK) (hbeyond : ∀ p price, beyond p price = true ↔ s.before price p)
    (hfair : loop.Fair s) (hparty : loop.Parties) (hrep : loop.reportsIncoming = false) :
    m.Consumes s (m.sweepSide s beyond loop) := by
  obtain ⟨htrades, hremaining⟩ :=
    loop.fill_trades m hOK (stops_sweepSide hbeyond) hfair hparty hrep
  exact ⟨htrades, hremaining⟩

theorem execute_consumes (hOK : ∀ s, (m.book.levels s).OK) :
    m.Consumes m.incoming.side.opposite m.execute := by
  cases hside : m.incoming.side with
  | buy =>
    simp only [execute, hside]
    exact sweepSide_consumes (hOK .sell) (fun _ _ => decide_eq_true_iff) FillLoop.matchBuy_fair
      (fun _ _ _ _ _ => Or.inl ⟨rfl, rfl⟩) rfl
  | sell =>
    simp only [execute, hside]
    exact sweepSide_consumes (hOK .buy) (fun _ _ => decide_eq_true_iff) FillLoop.matchSell_fair
      (fun _ _ _ _ _ => Or.inr ⟨rfl, rfl⟩) rfl

end Matching

namespace Book

variable {b : Book} {order : Order}

@[simp] lemma resting_enter (b : Book) (order : Order) (s : Side) :
    (b.enter order).book.resting s = b.resting s := by cases s <;> rfl

lemma trades_closing {id : ℕ} {evs : List BookEvent} (h : Matching.Closing id evs) :
    trades evs = [] := by
  apply List.filterMap_eq_nil_iff.mpr
  intro ev hev
  rcases h ev hev with ⟨o, rfl, -⟩ | ⟨r, rfl, -⟩ <;> rfl

/-- The trades of `newOrder`: one for each resting order that the order is filled from. -/
theorem newOrder_filled (hOK : ∀ s, (b.levels s).OK) (order : Order) :
    List.Forall₂ (Filled b.nextOrderId) (b.filledBy order) (trades (b.newOrder order).log) := by
  rcases b.newOrder_cases order with ⟨-, hex, h⟩ | ⟨-, -, hex, h⟩ | ⟨hex, h⟩ | ⟨hex, h⟩
  · rw [h, filledBy, if_neg hex]
    exact .nil
  · rw [h, filledBy, if_neg hex]
    exact .nil
  · rw [h, filledBy, if_neg hex]
    exact .nil
  · rw [h, filledBy, if_pos hex]
    obtain ⟨ts, htrades, hfilled⟩ := (Matching.execute_consumes (m := b.enter order)
      fun s => by cases s <;> exact hOK _).trades
    obtain ⟨last, hsettle, hlast⟩ := (b.enter order).execute.settle_log
    rw [hsettle, trades_append, trades_closing hlast, htrades, List.append_nil]
    rw [resting_enter] at hfilled
    exact hfilled

/-! ### The fill-or-kill check -/

lemma sumRemaining_le (orders : List Order) (acc : ℕ) :
    sumRemaining orders acc ≤ acc + openTotal orders := by
  induction orders generalizing acc with
  | nil => exact le_rfl
  | cons o orders ih =>
    have hadd : addQty acc o.remainingQty ≤ acc + o.remainingQty := Nat.mod_le _ _
    have hrest := ih (addQty acc o.remainingQty)
    rw [openTotal_cons]
    show sumRemaining orders (addQty acc o.remainingQty) ≤ _
    omega

/-- A sum that fits a `Quantity_t` is exact. -/
lemma sumRemaining_eq {orders : List Order} {acc : ℕ} (h : acc + openTotal orders < 2 ^ 64) :
    sumRemaining orders acc = acc + openTotal orders := by
  induction orders generalizing acc with
  | nil => rfl
  | cons o orders ih =>
    rw [openTotal_cons] at h ⊢
    have hadd : addQty acc o.remainingQty = acc + o.remainingQty := Nat.mod_eq_of_lt (by omega)
    show sumRemaining orders (addQty acc o.remainingQty) = _
    rw [hadd, ih (by omega), add_assoc]

variable {s : Side} {beyond : ℤ → ℤ → Bool}

/-- What is within reach of an order, level by level. -/
lemma within_level {price : ℤ} {orders rest : List Order} (hlevel : LevelOK s (price, orders)) :
    order.within s (orders ++ rest)
      = if order.Reaches s price then orders ++ order.within s rest else [] := by
  obtain ⟨o, os, ho⟩ := List.exists_cons_of_ne_nil hlevel.nonempty
  simp only at ho
  split
  · rename_i hreach
    apply List.takeWhile_append_of_pos
    intro o' ho'
    rw [hlevel.price o' ho']
    exact decide_eq_true hreach
  · rename_i hreach
    have hprice : o.price = price := hlevel.price o (by simp [ho])
    rw [ho, List.cons_append]
    apply List.takeWhile_cons_of_neg
    simpa [hprice] using hreach

/-- The check sees no more than there is within reach. -/
lemma available_le (hbeyond : ∀ p price, beyond p price = true ↔ s.before price p)
    {entries : List (ℤ × List Order)} (hOK : ∀ level ∈ entries, LevelOK s level) (acc : ℕ) :
    order.available beyond entries acc
      ≤ acc + openTotal (order.within s (Sweep.ungroup entries)) := by
  induction entries generalizing acc with
  | nil => exact Nat.le_add_right _ _
  | cons level rest ih =>
    obtain ⟨price, orders⟩ := level
    have hlevel := hOK _ List.mem_cons_self
    have hsum := sumRemaining_le orders acc
    rw [Sweep.ungroup_cons, within_level hlevel, Order.available]
    split
    · exact Nat.le_add_right _ _
    · rename_i hin
      have hreach : order.Reaches s price := fun hne hbefore =>
        hin ⟨hne, (hbeyond _ _).mpr hbefore⟩
      rw [if_pos hreach, openTotal_append]
      split
      · omega
      · have hrest := ih (fun level hl => hOK level (by simp [hl])) (sumRemaining orders acc)
        omega

/-- The check is exact as long as the sums fit. -/
lemma le_available_iff (hbeyond : ∀ p price, beyond p price = true ↔ s.before price p)
    {entries : List (ℤ × List Order)} (hOK : ∀ level ∈ entries, LevelOK s level) {acc : ℕ}
    (hfits : acc + openTotal (order.within s (Sweep.ungroup entries)) < 2 ^ 64) :
    order.quantity ≤ order.available beyond entries acc ↔
      order.quantity ≤ acc + openTotal (order.within s (Sweep.ungroup entries)) := by
  induction entries generalizing acc with
  | nil => rfl
  | cons level rest ih =>
    obtain ⟨price, orders⟩ := level
    have hlevel := hOK _ List.mem_cons_self
    rw [Sweep.ungroup_cons, within_level hlevel] at hfits ⊢
    rw [Order.available]
    by_cases hreach : order.Reaches s price
    · have hin : ¬(order.ordType ≠ .market ∧ beyond price order.price = true) := by
        rintro ⟨hne, hout⟩
        exact hreach hne ((hbeyond _ _).mp hout)
      rw [if_pos hreach, openTotal_append] at hfits ⊢
      rw [if_neg hin, sumRemaining_eq (by omega)]
      split
      · omega
      · rw [ih (fun level hl => hOK level (by simp [hl])) (by omega), add_assoc]
    · have hout : order.ordType ≠ .market ∧ beyond price order.price = true := by
        rw [Order.Reaches] at hreach
        push Not at hreach
        exact ⟨hreach.1, (hbeyond _ _).mpr hreach.2⟩
      rw [if_neg hreach, if_pos hout, openTotal_nil, Nat.add_zero]

theorem available_le_within (hOK : ∀ s, (b.levels s).OK) (order : Order) : b.available order
    ≤ openTotal (order.within order.side.opposite (b.resting order.side.opposite)) := by
  rw [← Nat.zero_add (openTotal _)]
  rw [Book.available]
  cases order.side with
  | buy => exact available_le (fun _ _ => decide_eq_true_iff) (hOK .sell) 0
  | sell => exact available_le (fun _ _ => decide_eq_true_iff) (hOK .buy) 0

/-- A fill-or-kill order that is executed is filled. -/
theorem fok_filled (hOK : ∀ s, (b.levels s).OK) (hex : b.Executes order) (htif : order.tif = .fok) :
    (b.enter order).execute.incoming.remainingQty = 0 := by
  have hconsumes := Matching.execute_consumes (m := b.enter order)
    fun s => by cases s <;> exact hOK _
  have havailable := (hex.2.2 htif).trans (available_le_within hOK order)
  rw [hconsumes.remaining, resting_enter]
  exact Nat.sub_eq_zero_of_le havailable

end Book

end EuNEx
