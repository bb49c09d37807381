import EuNEx.Book.Opening
import EuNEx.Book.Priority

/-!
# Totals in 64 bits

The fill-or-kill check, the opening price and the level view add up quantities in 64 bits. These
sums are right as long as they fit, and this is exactly when the decisions that depend on them are
right for all orders.
-/

namespace EuNEx

namespace Order

variable {order : Order} {beyond : ℤ → ℤ → Bool} {entries : List (ℤ × List Order)} {acc : ℕ}

/-! ### The fill-or-kill check -/

/-- The sum that the fill-or-kill check is to form. -/
def exactAvailable (order : Order) (beyond : ℤ → ℤ → Bool) : List (ℤ × List Order) → ℕ → ℕ
  | [], available => available
  | (price, orders) :: rest, available =>
    if order.ordType ≠ .market ∧ beyond price order.price then available
    else if order.quantity ≤ available + openTotal orders then available + openTotal orders
    else order.exactAvailable beyond rest (available + openTotal orders)

/-- Each level fits on top of those before it, unless these fill the greatest order. -/
def FitFrom : ℕ → List (ℤ × List Order) → Prop
  | _, [] => True
  | acc, level :: rest => (acc < 2 ^ 64 - 1 → acc + openTotal level.2 < 2 ^ 64) ∧
      FitFrom (acc + openTotal level.2) rest

lemma fitFrom_of_le (h : 2 ^ 64 - 1 ≤ acc) : FitFrom acc entries := by
  induction entries generalizing acc with
  | nil => trivial
  | cons level rest ih => exact ⟨fun hlt => absurd h hlt.not_ge, ih (Nat.le_add_right_of_le h)⟩

/-- Where the levels fit, the check of every order forms the sum it is to form. -/
lemma available_eq (hqty : order.quantity < 2 ^ 64) (hacc : acc < 2 ^ 64 - 1)
    (h : FitFrom acc entries) :
    order.available beyond entries acc = order.exactAvailable beyond entries acc := by
  induction entries generalizing acc with
  | nil => rfl
  | cons level rest ih =>
    obtain ⟨price, orders⟩ := level
    obtain ⟨hfits, hrest⟩ := h
    rw [available, exactAvailable, Book.sumRemaining_eq (hfits hacc)]
    split
    · rfl
    · split
      · rfl
      · exact ih (by omega) hrest

lemma available_lt (hacc : acc < 2 ^ 64) : order.available beyond entries acc < 2 ^ 64 := by
  induction entries generalizing acc with
  | nil => exact hacc
  | cons level rest ih =>
    obtain ⟨price, orders⟩ := level
    have hsum : Book.sumRemaining orders acc < 2 ^ 64 := by
      rw [Book.sumRemaining_mod orders hacc]
      exact Nat.mod_lt _ (by decide)
    rw [available]
    split
    · exact hacc
    · split
      · exact hsum
      · exact ih hsum

/-- The check of the greatest market order is right only if the levels fit. -/
lemma fitFrom_of_available (htype : order.ordType = .market) (hqty : order.quantity = 2 ^ 64 - 1)
    (h : order.available beyond entries acc = order.exactAvailable beyond entries acc) :
    FitFrom acc entries := by
  induction entries generalizing acc with
  | nil => trivial
  | cons level rest ih =>
    obtain ⟨price, orders⟩ := level
    by_cases hacc : acc < 2 ^ 64 - 1
    · have hgo : ¬(order.ordType ≠ .market ∧ beyond price order.price = true) := by simp [htype]
      have hlt : order.available beyond ((price, orders) :: rest) acc < 2 ^ 64 :=
        available_lt (by omega)
      rw [h, exactAvailable, if_neg hgo, hqty] at hlt
      rw [available, exactAvailable, if_neg hgo, if_neg hgo, hqty] at h
      by_cases hfull : 2 ^ 64 - 1 ≤ acc + openTotal orders
      · rw [if_pos hfull] at hlt
        exact ⟨fun _ => hlt, fitFrom_of_le hfull⟩
      · have hfits : acc + openTotal orders < 2 ^ 64 := by omega
        rw [Book.sumRemaining_eq hfits, if_neg hfull, if_neg hfull] at h
        exact ⟨fun _ => hfits, ih h⟩
    · exact fitFrom_of_le (not_lt.mp hacc)

/-- The exact check finds enough if there is enough within the limit of the order. -/
lemma le_exactAvailable_iff {s : Side}
    (hbeyond : ∀ p price, beyond p price = true ↔ s.before price p)
    (hOK : ∀ level ∈ entries, LevelOK s level) :
    order.quantity ≤ order.exactAvailable beyond entries acc ↔
      order.quantity ≤ acc + openTotal (order.within s (Sweep.ungroup entries)) := by
  induction entries generalizing acc with
  | nil => rfl
  | cons level rest ih =>
    obtain ⟨price, orders⟩ := level
    have hrest := @ih (acc + openTotal orders) fun level hl => hOK level (by simp [hl])
    rw [Sweep.ungroup_cons, Book.within_level (hOK _ List.mem_cons_self), exactAvailable]
    by_cases hreach : order.Reaches s price
    · have hin : ¬(order.ordType ≠ .market ∧ beyond price order.price = true) := by
        rintro ⟨hne, hout⟩
        exact hreach hne ((hbeyond _ _).mp hout)
      rw [if_pos hreach, if_neg hin, openTotal_append]
      split
      · omega
      · rw [hrest, Nat.add_assoc]
    · have hout : order.ordType ≠ .market ∧ beyond price order.price = true := by
        rw [Reaches] at hreach
        push Not at hreach
        exact ⟨hreach.1, (hbeyond _ _).mpr hreach.2⟩
      rw [if_neg hreach, if_pos hout, openTotal_nil, Nat.add_zero]

end Order

namespace Book

variable {b : Book} {order : Order}

def exactAvailable (b : Book) (order : Order) : ℕ :=
  match order.side with
  | .buy => order.exactAvailable (fun askPrice price => askPrice > price) b.asks.entries 0
  | .sell => order.exactAvailable (fun bidPrice price => bidPrice < price) b.bids.entries 0

/-! ### Right totals -/

/-- No total is wrong, and so no decision is. -/
structure NeverWraps (b : Book) : Prop where
  levels : ∀ s depth, (getLevels (b.levels s) depth).map Level.totalQty
    = ((b.levels s).entries.take depth).map fun level => openTotal level.2
  available : b.phase = .cts → ∀ order : Order, order.quantity < 2 ^ 64 →
    b.available order = b.exactAvailable order
  /-- A fill-or-kill order is filled while enough is resting within its limit. -/
  fillOrKill : b.phase = .cts → ∀ order : Order,
    order.ordType = .limit ∨ order.ordType = .market → order.tif = .fok →
    order.quantity < 2 ^ 64 →
    order.quantity ≤ openTotal
      (order.within order.side.opposite (b.resting order.side.opposite)) →
    b.FilledAtOnce order (b.newOrder order)
  /-- `getIOP` forms its sums where there are orders on both sides. -/
  cumulative : (∀ s, b.resting s ≠ []) → ∀ p, b.IsPrice p →
    b.iopCurves.demand p = b.curves.demand p ∧ b.iopCurves.supply p = b.curves.supply p
  auction : ∀ p, b.curves.volume p ≤ b.curves.volume b.getIOP

/-- The sums fit 64 bits. -/
structure SumsFit (b : Book) : Prop where
  levels : ∀ s, ∀ level ∈ (b.levels s).entries, openTotal level.2 < 2 ^ 64
  available : b.phase = .cts → ∀ s, Order.FitFrom 0 (b.levels s).entries
  cumulative : (∀ s, b.resting s ≠ []) → ∀ s, openTotal (b.resting s) < 2 ^ 64

/-! ### Levels -/

lemma getLevels_eq_iff {s : Side} (levels : Levels s) :
    (∀ depth, (getLevels levels depth).map Level.totalQty
      = (levels.entries.take depth).map fun level => openTotal level.2) ↔
    ∀ level ∈ levels.entries, openTotal level.2 < 2 ^ 64 := by
  have hsum : ∀ orders, sumRemaining orders 0 = openTotal orders % 2 ^ 64 := fun orders => by
    rw [sumRemaining_mod orders (by decide), Nat.zero_add]
  constructor
  · intro h level hl
    have hall := h levels.entries.length
    rw [getLevels, List.take_length, List.map_map, List.map_inj_left] at hall
    have hlevel : sumRemaining level.2 0 = openTotal level.2 := hall level hl
    rw [← hlevel, hsum]
    exact Nat.mod_lt _ (by decide)
  · intro h depth
    rw [getLevels, List.map_map, List.map_inj_left]
    intro level hl
    show sumRemaining level.2 0 = _
    rw [hsum, Nat.mod_eq_of_lt (h level (List.mem_of_mem_take hl))]

/-! ### The fill-or-kill check -/

lemma available_eq_iff (b : Book) :
    (∀ order : Order, order.quantity < 2 ^ 64 → b.available order = b.exactAvailable order) ↔
      ∀ s, Order.FitFrom 0 (b.levels s).entries := by
  constructor
  · intro h s
    -- the greatest market order on the other side
    have heq := h { dayLimit s.opposite 0 (2 ^ 64 - 1) 0 with ordType := .market }
      (by decide : 2 ^ 64 - 1 < 2 ^ 64)
    cases s with
    | buy => exact Order.fitFrom_of_available rfl rfl heq
    | sell => exact Order.fitFrom_of_available rfl rfl heq
  · intro h order hqty
    rw [available, exactAvailable]
    cases order.side with
    | buy => exact Order.available_eq hqty (by decide) (h .sell)
    | sell => exact Order.available_eq hqty (by decide) (h .buy)

lemma Shape.le_exactAvailable_iff (h : b.Shape) (order : Order) :
    order.quantity ≤ b.exactAvailable order ↔ order.quantity ≤ openTotal
      (order.within order.side.opposite (b.resting order.side.opposite)) := by
  rw [exactAvailable, ← Nat.zero_add (openTotal _)]
  cases order.side with
  | buy => exact Order.le_exactAvailable_iff (fun _ _ => decide_eq_true_iff) (h.levels .sell)
  | sell => exact Order.le_exactAvailable_iff (fun _ _ => decide_eq_true_iff) (h.levels .buy)

/-! ### The opening price -/

lemma Shape.cumulative_iff (h : b.Shape) (hboth : ∀ s, b.resting s ≠ []) :
    (∀ p, b.IsPrice p →
      b.iopCurves.demand p = b.curves.demand p ∧ b.iopCurves.supply p = b.curves.supply p) ↔
    ∀ s, openTotal (b.resting s) < 2 ^ 64 := by
  constructor
  · intro heq s
    have hbuy : openTotal (b.resting .buy) < 2 ^ 64 := by
      -- at the lowest bid, all bids are counted
      obtain ⟨o, ho⟩ := Option.ne_none_iff_exists'.mp (mt List.argmin_eq_none.mp (hboth .buy) :
        (b.resting .buy).argmin Order.price ≠ none)
      have hall : (b.resting .buy).filter (fun o' => o.price ≤ o'.price) = b.resting .buy :=
        List.filter_eq_self.mpr fun o' ho' => decide_eq_true (List.le_of_mem_argmin ho' ho)
      have hdemand := (heq o.price (h.isPrice_iff.mpr ⟨.buy, o, List.argmin_mem ho, rfl⟩)).1
      rw [iopCurves_demand h, show b.curves.demand o.price = openTotal (b.resting .buy) from
        congrArg openTotal hall] at hdemand
      rw [← hdemand]
      exact Nat.mod_lt _ (by decide)
    have hsell : openTotal (b.resting .sell) < 2 ^ 64 := by
      obtain ⟨o, ho⟩ := Option.ne_none_iff_exists'.mp (mt List.argmax_eq_none.mp (hboth .sell) :
        (b.resting .sell).argmax Order.price ≠ none)
      have hall : (b.resting .sell).filter (fun o' => o'.price ≤ o.price) = b.resting .sell :=
        List.filter_eq_self.mpr fun o' ho' => decide_eq_true (List.le_of_mem_argmax ho' ho)
      have hsupply := (heq o.price (h.isPrice_iff.mpr ⟨.sell, o, List.argmax_mem ho, rfl⟩)).2
      rw [iopCurves_supply h, show b.curves.supply o.price = openTotal (b.resting .sell) from
        congrArg openTotal hall] at hsupply
      rw [← hsupply]
      exact Nat.mod_lt _ (by decide)
    cases s with
    | buy => exact hbuy
    | sell => exact hsell
  · intro hfits p _
    rw [iopCurves_eq h hfits]
    exact ⟨rfl, rfl⟩

/-- Without a bid or without an ask nothing can be executed. -/
lemma volume_eq_zero {s : Side} (hnone : b.resting s = []) (p : ℤ) : b.curves.volume p = 0 := by
  cases s with
  | buy =>
    have hzero : b.curves.demand p = 0 := by
      show openTotal ((b.resting .buy).filter _) = 0
      rw [hnone]
      rfl
    rw [CallAuction.Curves.volume, hzero, Nat.zero_min]
  | sell =>
    have hzero : b.curves.supply p = 0 := by
      show openTotal ((b.resting .sell).filter _) = 0
      rw [hnone]
      rfl
    rw [CallAuction.Curves.volume, hzero, Nat.min_zero]

/-- Where the sums fit, the opening price has the greatest volume. -/
lemma Shape.volume_le_getIOP (h : b.Shape)
    (hfits : (∀ s, b.resting s ≠ []) → ∀ s, openTotal (b.resting s) < 2 ^ 64) (p : ℤ) :
    b.curves.volume p ≤ b.curves.volume b.getIOP := by
  rcases Nat.eq_zero_or_pos (b.curves.volume p) with hzero | hpos
  · rw [hzero]
    exact Nat.zero_le _
  · have hboth : ∀ s, b.resting s ≠ [] := fun s hnone => hpos.ne' (volume_eq_zero hnone p)
    have hspec := b.getIOP_spec
    rw [iopCurves_eq h (hfits hboth)] at hspec
    rcases hspec with ⟨-, hzero⟩ | hbest
    · obtain ⟨q, hq, hle⟩ := h.exists_volume_le hpos
      rw [hzero q hq] at hle
      exact absurd hpos hle.not_gt
    · exact (h.optimalPrice hbest).volume p

/-- The totals are right, and the decisions with them, if and only if the sums fit 64 bits. -/
theorem neverWraps_iff (symbolIdx : ℕ) (ops : List BookOp) :
    (run symbolIdx ops).1.NeverWraps ↔ (run symbolIdx ops).1.SumsFit := by
  have h : (run symbolIdx ops).1.Shape := (sound_run symbolIdx ops).shape
  constructor
  · intro hw
    refine ⟨fun s => (getLevels_eq_iff _).mp (hw.levels s), fun hphase => ?_, fun hboth => ?_⟩
    · exact (available_eq_iff _).mp (hw.available hphase)
    · exact (h.cumulative_iff hboth).mp (hw.cumulative hboth)
  · intro hfit
    have havailable := fun hphase => (available_eq_iff _).mpr (hfit.available hphase)
    refine ⟨fun s => (getLevels_eq_iff _).mpr (hfit.levels s), havailable, ?_, fun hboth => ?_,
      h.volume_le_getIOP hfit.cumulative⟩
    · intro hphase order htype htif hqty henough
      apply h.filledAtOnce hphase (isStop_of_type htype) htif
      rw [havailable hphase order hqty]
      exact (h.le_exactAvailable_iff order).mpr henough
    · exact (h.cumulative_iff hboth).mpr (hfit.cumulative hboth)

/-- With 2⁶⁴ - 1 and 1 on offer at 10 the totals are 0, and a buyer of 5 is turned away. -/
theorem neverWraps_iff_twoAsks :
    let b := (run 1 [.newOrder (dayLimit .sell 10 (2 ^ 64 - 1) 1),
      .newOrder (dayLimit .sell 10 1 2)]).1
    let order := { dayLimit .buy 10 5 3 with tif := .fok }
    openTotal (order.within .sell (b.resting .sell)) = 2 ^ 64 ∧ b.available order = 0 ∧
      b.getAsks 1 = [⟨10, 0, 2⟩] ∧ trades (b.newOrder order).log = [] ∧ ¬b.NeverWraps := by
  refine ⟨by decide, by decide, by decide, by decide, fun hw => ?_⟩
  have hwrong := hw.levels .sell 1
  exact absurd hwrong (by decide)

end Book

end EuNEx
