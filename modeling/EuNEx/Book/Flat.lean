import EuNEx.Book.Resting
import EuNEx.Lib.Sorted

/-!
# The book as two lists

What continuous trading does to the lists of resting orders, exactly. A new resting order is
inserted behind all orders that it does not come before, matching is one loop over the list of the
other side, and a cancel leaves out one id.
-/

namespace EuNEx

/-- A choice of prices that contains, with a price, all better ones. -/
def Side.Initial (s : Side) (takes : ℤ → Bool) : Prop :=
  ∀ p p', s.before p p' → takes p' = true → takes p = true

namespace Side

variable {s : Side} {takes : ℤ → Bool} {o o' : Order}

lemma initial_atLeast (p : ℤ) : Side.buy.Initial fun bidPrice => p ≤ bidPrice :=
  fun _ _ hbetter hle => decide_eq_true ((of_decide_eq_true hle).trans (le_of_lt hbetter))

lemma initial_atMost (p : ℤ) : Side.sell.Initial fun askPrice => askPrice ≤ p :=
  fun _ _ hbetter hle => decide_eq_true ((le_of_lt hbetter).trans (of_decide_eq_true hle))

lemma Initial.of_sorted (h : s.Initial takes)
    (hoo' : o.price = o'.price ∨ s.before o.price o'.price) (ho' : takes o'.price = true) :
    takes o.price = true := by
  rcases hoo' with heq | hbefore
  · rwa [heq]
  · exact h _ _ hbefore ho'

end Side

namespace Levels

variable {s : Side} {levels : Levels s} {takes : ℤ → Bool}

/-- The orders at such prices stand in front of the others. -/
lemma OK.filter_eq_takeWhile (h : levels.OK) (htakes : s.Initial takes) :
    (levels.elems.filter fun o => takes o.price) = levels.elems.takeWhile fun o => takes o.price :=
  Sorted.filter_eq_takeWhile (fun _ _ hoo' ho' => htakes.of_sorted hoo' ho') h.elems_sorted

lemma OK.filter_not_eq_dropWhile (h : levels.OK) (htakes : s.Initial takes) :
    (levels.elems.filter fun o => !takes o.price)
      = levels.elems.dropWhile fun o => takes o.price :=
  Sorted.filter_not_eq_dropWhile (p := fun o : Order => takes o.price)
    (fun _ _ hoo' ho' => htakes.of_sorted hoo' ho') h.elems_sorted

/-- Pushing back an order at its price inserts it behind all orders that it does not come
before. -/
lemma OK.elems_upsert (h : levels.OK) (o : Order) :
    (levels.upsert o.price fun level => level.getD [] ++ [o]).elems
      = Sorted.insertBehind (fun o' => ¬s.before o.price o'.price) o levels.elems := by
  obtain ⟨es, hs⟩ := levels
  simp only [OK] at h
  show Sweep.ungroup (OrdMap.upsertList s.before o.price _ es)
    = Sorted.insertBehind _ o (Sweep.ungroup es)
  induction es with
  | nil => rfl
  | cons e es ih =>
    have he := h e (by simp)
    have hes : ∀ level ∈ es, LevelOK s level := fun level hl => h level (by simp [hl])
    have hnext : ∀ o' ∈ Sweep.ungroup es, s.before e.1 o'.price := by
      intro o' ho'
      obtain ⟨level, hl, hol⟩ := Sweep.mem_ungroup.mp ho'
      rw [(hes level hl).price o' hol]
      exact List.rel_of_pairwise_cons hs hl
    simp only [OrdMap.upsertList]
    split
    · -- a new level in front
      rename_i hlt
      rw [Sorted.insertBehind_of_forall]
      · simp
      · intro o' ho'
        rw [Sweep.ungroup_cons, List.mem_append] at ho'
        rcases ho' with ho' | ho'
        · simpa [he.price o' ho'] using hlt
        · simpa using trans_of s.before hlt (hnext o' ho')
    · rename_i hnot
      have hfirst : ∀ o' ∈ e.2, decide (¬s.before o.price o'.price) = true := by
        intro o' ho'
        simpa [he.price o' ho'] using hnot
      rw [Sweep.ungroup_cons, Sorted.insertBehind_append hfirst]
      split
      · rw [Sweep.ungroup_cons, ih hs.of_cons hes]
      · -- the level of the order
        rename_i hnot'
        have heq : o.price = e.1 := OrdMap.eq_of_not_lt hnot hnot'
        rw [Sorted.insertBehind_of_forall fun o' ho' => by simpa [heq] using hnext o' ho',
          Sweep.ungroup_cons]
        simp

end Levels

/-! ### Matching -/

/-- The loop that an order of a side runs. -/
def Side.fillLoop : Side → FillLoop
  | .buy => .matchBuy
  | .sell => .matchSell

/-- One turn of the flat loop: the next resting order of side `s`, if it is within reach. -/
def FillLoop.next (loop : FillLoop) (s : Side) (m : Matching) (o : Order) :
    Option (Matching × Option Order) :=
  if m.incoming.Reaches s o.price then loop.visit o.price m o else none

namespace Matching

variable {m : Matching} {s : Side} {beyond : ℤ → ℤ → Bool} {loop : FillLoop}

/-- The nested loop over the levels is the flat loop over the resting orders. -/
lemma sweepSide_flat (hOK : (m.book.levels s).OK)
    (hbeyond : ∀ p price, beyond p price = true ↔ s.before price p) :
    (m.sweepSide s beyond loop).log = (Sweep.sweep (loop.next s) m (m.book.resting s)).1.log ∧
    (m.sweepSide s beyond loop).incoming
      = (Sweep.sweep (loop.next s) m (m.book.resting s)).1.incoming ∧
    (m.sweepSide s beyond loop).book.resting s
      = (Sweep.sweep (loop.next s) m (m.book.resting s)).2 := by
  have hstop := stops_sweepSide hbeyond
  have hflat := loop.fill_flat m id hOK hstop
  have hvisit : Sweep.visitFlat Order.price (fun m p => m.incoming.remainingQty = 0 ||
      m.incoming.ordType ≠ .market && beyond p m.incoming.price) (fun p => loop.visit (id p))
      = loop.next s := by
    funext m o
    rw [Sweep.visitFlat, FillLoop.next]
    by_cases hz : m.incoming.remainingQty = 0
    · rw [if_pos (by simp [hz]), FillLoop.visit_eq_none.mpr hz, ite_self]
    · have hiff := (hstop.iff m o.price).trans (and_iff_right hz)
      by_cases hreach : m.incoming.Reaches s o.price
      · rw [if_pos hreach, hiff.mpr hreach]
        rfl
      · rw [if_neg hreach, if_pos (eq_true_of_ne_false (mt hiff.mp hreach))]
  rw [hvisit] at hflat
  rw [Book.resting, hflat]
  simp only [sweepSide]
  exact ⟨rfl, rfl, Book.resting_setLevels _⟩

lemma execute_flat (hOK : ∀ s, (m.book.levels s).OK) :
    let r := Sweep.sweep (m.incoming.side.fillLoop.next m.incoming.side.opposite) m
      (m.book.resting m.incoming.side.opposite)
    m.execute.log = r.1.log ∧ m.execute.incoming = r.1.incoming ∧
      m.execute.book.resting m.incoming.side.opposite = r.2 := by
  cases hside : m.incoming.side with
  | buy =>
    simp only [execute, hside]
    exact sweepSide_flat (hOK .sell) fun _ _ => decide_eq_true_iff
  | sell =>
    simp only [execute, hside]
    exact sweepSide_flat (hOK .buy) fun _ _ => decide_eq_true_iff

end Matching

/-! ### New orders -/

/-- Fills only take from the other side. -/
lemma openTotal_sweep_le (loop : FillLoop) (s : Side) (m : Matching) (orders : List Order) :
    openTotal (Sweep.sweep (loop.next s) m orders).2 ≤ openTotal orders := by
  apply Sweep.sweep_invariant (loop.next s) (P := fun _ os => openTotal os ≤ openTotal orders)
  · intro m done o todo m' left h hv
    rw [FillLoop.next] at hv
    split at hv
    · have ht := FillLoop.turn_of_visit hv
      apply le_trans _ h
      cases left with
      | none => simp
      | some o' => simpa using ht.shrunk.le
    · cases hv
  · exact le_rfl

lemma openTotal_filter_le (p : Order → Bool) (orders : List Order) :
    openTotal (orders.filter p) ≤ openTotal orders := by
  induction orders with
  | nil => exact le_rfl
  | cons o orders ih =>
    rw [List.filter_cons, openTotal_cons]
    split
    · exact Nat.add_le_add_left ih _
    · exact ih.trans (Nat.le_add_left _ _)

namespace Book

variable {b : Book} {order : Order} {s : Side}

lemma levels_ok_enter (hOK : ∀ s, (b.levels s).OK) (order : Order) (s : Side) :
    ((b.enter order).book.levels s).OK := by cases s <;> exact hOK _

/-- Matching a new order is the flat loop over the other side. -/
lemma enter_flat (hOK : ∀ s, (b.levels s).OK) (order : Order) :
    let r := Sweep.sweep (order.side.fillLoop.next order.side.opposite) (b.enter order)
      (b.resting order.side.opposite)
    (b.enter order).execute.log = r.1.log ∧ (b.enter order).execute.incoming = r.1.incoming ∧
      (b.enter order).execute.book.resting order.side.opposite = r.2 := by
  have hflat := Matching.execute_flat (levels_ok_enter hOK order)
  rwa [resting_enter] at hflat

/-- Matching leaves the own side alone. -/
lemma levels_execute_own (hOK : ∀ s, (b.levels s).OK) (order : Order) :
    (b.enter order).execute.book.levels order.side = b.levels order.side := by
  have hkept := (enter_sweeps hOK order).opposite
  rw [Side.opposite_opposite] at hkept
  rw [hkept]
  cases order.side <;> rfl

lemma resting_execute_own (hOK : ∀ s, (b.levels s).OK) (order : Order) :
    (b.enter order).execute.book.resting order.side = b.resting order.side := by
  rw [Book.resting, levels_execute_own hOK, Book.resting]

/-- In continuous trading an order that is no stop is rejected or executed. -/
lemma newOrder_cts (hphase : b.phase = .cts) (hexec : order.ordType.isStop = false) :
    b.newOrder order
      = if b.Executes order then (b.enter order).execute.settle else (b.enter order).reject := by
  rcases b.newOrder_cases order with ⟨hstop, -, -⟩ | ⟨-, hcts, -, -⟩ | ⟨hex, h⟩ | ⟨hex, h⟩
  · simp [hexec] at hstop
  · exact absurd hphase hcts
  · rw [h, if_neg hex]
  · rw [h, if_pos hex]

/-- What is within reach stands in front. -/
lemma within_eq_filter (hOK : (b.levels s).OK) (order : Order) :
    order.within s (b.resting s)
      = (b.resting s).filter fun o => decide (order.Reaches s o.price) := by
  have hinitial : s.Initial fun p => order.Reaches s p := fun p p' hbetter hreach =>
    decide_eq_true ((of_decide_eq_true hreach : order.Reaches s p').mono hbetter)
  exact (hOK.filter_eq_takeWhile hinitial).symm

/-- The fill-or-kill check sums up all that is within reach, as long as the sum fits. -/
lemma le_available_iff_of_fits (hOK : ∀ s, (b.levels s).OK)
    (hfits : openTotal (b.resting order.side.opposite) < 2 ^ 64) :
    order.quantity ≤ b.available order ↔ order.quantity ≤ openTotal
      ((b.resting order.side.opposite).filter fun o =>
        decide (order.Reaches order.side.opposite o.price)) := by
  have hle : openTotal (order.within order.side.opposite (b.resting order.side.opposite))
      ≤ openTotal (b.resting order.side.opposite) := by
    rw [within_eq_filter (hOK _)]
    exact openTotal_filter_le _ _
  rw [← within_eq_filter (hOK _), ← Nat.zero_add (openTotal _)]
  rw [Book.available]
  cases hside : order.side with
  | buy =>
    rw [hside] at hle hfits
    exact le_available_iff (fun _ _ => decide_eq_true_iff) (hOK .sell)
      (by rw [Nat.zero_add]; exact hle.trans_lt hfits)
  | sell =>
    rw [hside] at hle hfits
    exact le_available_iff (fun _ _ => decide_eq_true_iff) (hOK .buy)
      (by rw [Nat.zero_add]; exact hle.trans_lt hfits)

lemma executes_iff (hphase : b.phase = .cts) (hexec : order.ordType.isStop = false) :
    b.Executes order ↔ (order.tif = .fok → order.quantity ≤ b.available order) := by
  simp [Executes, hphase, hexec]

/-- A new resting order stands behind all orders that it does not come before. -/
lemma resting_insertResting (hOK : (b.levels order.side).OK) :
    (b.insertResting order).resting order.side = Sorted.insertBehind
      (fun o => ¬order.side.before order.price o.price) order (b.resting order.side) := by
  rw [insertResting_eq, resting_withSide]
  exact hOK.elems_upsert order

/-- What rests after an order has been put to rest. -/
lemma openTotal_insertResting_le : openTotal ((b.insertResting order).resting s)
    ≤ openTotal (b.resting s) + order.remainingQty := by
  rcases eq_or_ne order.side s with rfl | hne
  · have hperm := (resting_insertResting_perm b order).map Order.remainingQty
    rw [openTotal, hperm.sum_eq, List.map_cons, List.sum_cons, Nat.add_comm]
    rfl
  · have hs : s = order.side.opposite := by
      cases h : order.side <;> cases s <;> simp_all
    rw [hs, resting_insertResting_opposite]
    exact Nat.le_add_right _ _

/-- A new order adds at most its quantity to what rests. -/
lemma openTotal_newOrder_le (hOK : ∀ s, (b.levels s).OK) (hphase : b.phase = .cts)
    (hexec : order.ordType.isStop = false) : openTotal ((b.newOrder order).book.resting s)
      ≤ openTotal (b.resting s) + order.quantity := by
  have hsweeps := enter_sweeps hOK order
  have hexecuted : ∀ s, openTotal ((b.enter order).execute.book.resting s)
      ≤ openTotal (b.resting s) := by
    refine (forall_sides (s := order.side) (P := fun s =>
      openTotal ((b.enter order).execute.book.resting s) ≤ openTotal (b.resting s))).mpr ⟨?_, ?_⟩
    · rw [resting_execute_own hOK]
    · rw [(enter_flat hOK order).2.2]
      exact openTotal_sweep_le _ _ _ _
  rw [newOrder_cts hphase hexec]
  split
  · rcases (b.enter order).execute.settle_book with ⟨hbook, -⟩ | ⟨-, -, -, status, hbook⟩
    · rw [hbook]
      exact (hexecuted s).trans (Nat.le_add_right _ _)
    · rw [hbook]
      exact openTotal_insertResting_le.trans (Nat.add_le_add (hexecuted s) hsweeps.incoming.le)
  · exact (resting_enter b order s).symm ▸ Nat.le_add_right _ _

/-! ### Cancels -/

/-- Ids do not repeat on a side. -/
lemma Shape.nodup (h : b.Shape) (s : Side) : ((b.resting s).map Order.orderId).Nodup := by
  have hnodup := (h.indexed_side s).nodup
  rw [Multiset.map_add, Multiset.nodup_add] at hnodup
  exact hnodup.1

/-- With distinct ids, no order that a removal leaves has the id that it removes. -/
lemma Removes.ne_of_mem {id : ℕ} {c : Cancel} (hc : b.Removes id c)
    (hids : (b.live.map Order.orderId).Nodup) : ∀ o ∈ c.book.live, o.orderId ≠ id := by
  rw [hc.live, Multiset.map_cons, Multiset.nodup_cons, hc.orderId] at hids
  rintro o ho rfl
  exact hids.1 (Multiset.mem_map_of_mem _ ho)

/-- A removal leaves out the order with this id, and the others stay in their order. -/
lemma Removes.resting_eq {id : ℕ} {c : Cancel} (hc : b.Removes id c) (h : b.Shape)
    (hids : (b.live.map Order.orderId).Nodup) (s : Side) :
    c.book.resting s = (b.resting s).filter fun o => o.orderId ≠ id := by
  have hne : ∀ o ∈ c.book.resting s, decide (o.orderId ≠ id) = true := fun o ho =>
    decide_eq_true (hc.ne_of_mem hids o (Book.mem_live.mpr (Or.inl ⟨s, ho⟩)))
  have hleft := List.filter_eq_self.mpr hne
  cases hc with
  | stop o stops hid hmem hperm hsub =>
    rw [← hleft]
    cases s <;> rfl
  | resting t o levels hid hperm hOK =>
    refine (forall_sides (s := t) (P := fun s => ((b.withSide t levels _).resting s).filter
      (fun o => o.orderId ≠ id) = (b.withSide t levels _).resting s →
        (b.withSide t levels _).resting s = (b.resting s).filter fun o => o.orderId ≠ id)).mpr
      ⟨?_, ?_⟩ s hleft
    · -- the rest of the side is in its priority, and so is what the filter leaves
      intro hleft
      rw [resting_withSide] at hleft ⊢
      have hfilter := hperm.filter fun o => decide (o.orderId ≠ id)
      rw [List.filter_cons_of_neg (by simp [hid]), hleft] at hfilter
      exact hfilter.symm.eq_of_pairwise (fun o o' _ _ ho ho' => absurd ho' ho.asymm)
        hOK.elems_priority (((h.levels t).elems_priority).filter _)
    · intro hleft
      rw [resting_withSide_opposite] at hleft ⊢
      exact hleft.symm

/-- The parked stops are left in their order, too. -/
lemma Removes.stopOrders_eq {id : ℕ} {c : Cancel} (hc : b.Removes id c) (h : b.Shape)
    (hids : (b.live.map Order.orderId).Nodup) :
    c.book.stopOrders = b.stopOrders.filter fun o => o.orderId ≠ id := by
  have hne : ∀ o ∈ c.book.stopOrders, decide (o.orderId ≠ id) = true := fun o ho =>
    decide_eq_true (hc.ne_of_mem hids o (Book.mem_live.mpr (Or.inr ho)))
  have hleft := List.filter_eq_self.mpr hne
  cases hc with
  | stop o stops hid hmem hperm hsub =>
    have hfilter := hperm.filter fun o => decide (o.orderId ≠ id)
    rw [List.filter_cons_of_neg (by simp [hid]), hleft] at hfilter
    exact hfilter.symm.eq_of_pairwise (fun o o' _ _ ho ho' => absurd ho' ho.asymm)
      (h.arrival.sublist hsub) (h.arrival.filter _)
  | resting t o levels hid hperm hOK =>
    rw [← hleft]
    simp

/-- A cancel leaves out the order with this id. -/
lemma resting_cancelOrder (h : b.Shape) (hstops : b.stopOrders = []) {id : ℕ} {c : Cancel}
    (hc : b.cancelOrder id = some c) (s : Side) :
    c.book.resting s = (b.resting s).filter fun o => o.orderId ≠ id := by
  refine (removes_of_cancelOrder h hc).resting_eq h ?_ s
  rw [live, hstops, Multiset.coe_nil, add_zero]
  exact h.indexed.nodup

end Book

end EuNEx
