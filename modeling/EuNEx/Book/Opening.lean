import EuNEx.Book.Flat
import EuNEx.Lib.CallAuction

/-!
# The opening price

`getIOP` scans the order prices for the one that is best in a call auction. It forms its sums in 64
bits, so this concerns the curves of the sums; as long as the sums fit, these are the demand and
the supply of the resting orders.
-/

namespace EuNEx

open CallAuction (Curves)

namespace Book

variable {b : Book}

/-- Demand and supply as `getIOP` computes them. -/
def iopCurves (b : Book) : Curves ℤ where
  demand p := cumQty b.bids fun bidPrice => bidPrice ≥ p
  supply p := cumQty b.asks fun askPrice => askPrice ≤ p

/-- Demand and supply of the resting orders. -/
def curves (b : Book) : Curves ℤ :=
  .ofOrders Order.price Order.remainingQty (b.resting .buy) (b.resting .sell)

/-- The price of some level. -/
def IsPrice (b : Book) (p : ℤ) : Prop := p ∈ b.bids.keys ∨ p ∈ b.asks.keys

/-! ### The candidates -/

lemma candidatePrices_eq (b : Book) :
    b.candidatePrices = ((b.bids.keys ++ b.asks.keys).insertionSort (· ≤ ·)).dedup :=
  (List.pairwise_insertionSort _ _).destutter_eq_dedup

lemma mem_candidatePrices {p : ℤ} : p ∈ b.candidatePrices ↔ b.IsPrice p := by
  rw [candidatePrices_eq, List.mem_dedup, List.mem_insertionSort, List.mem_append, IsPrice]

/-- The candidates come in increasing order. -/
lemma candidatePrices_sorted (b : Book) : b.candidatePrices.Pairwise (· < ·) := by
  rw [candidatePrices_eq]
  have hsorted := (List.pairwise_insertionSort (· ≤ ·) (b.bids.keys ++ b.asks.keys)).sublist
    (List.dedup_sublist _)
  exact (hsorted.and (List.nodup_dedup _)).imp fun h => lt_of_le_of_ne h.1 h.2

/-! ### The scan -/

/-- What `getIOP` notes down about a price. -/
def candidate (b : Book) (p : ℤ) : Candidate :=
  ⟨p, b.iopCurves.volume p, b.iopCurves.surplus p, b.iopCurves.BuySurplus p⟩

/-- The running best of `getIOP` against that of the scan for the best price. -/
def Notes (b : Book) (best : Candidate) : Option ℤ → Prop
  | none => best.volume = 0
  | some p => best = b.candidate p ∧ 0 < b.iopCurves.volume p

lemma iopStep_eq (b : Book) (best : Candidate) (p : ℤ) : b.iopStep best p
    = if (b.candidate p).volume > best.volume ∨ ((b.candidate p).volume = best.volume ∧
          (b.candidate p).surplus < best.surplus) ∨
        ((b.candidate p).volume = best.volume ∧ (b.candidate p).surplus = best.surplus ∧
          (b.candidate p).buySurplus = true ∧ p > best.price) then b.candidate p else best := by
  have hsurplus : b.iopCurves.surplus p = if b.iopCurves.demand p > b.iopCurves.supply p then
      b.iopCurves.demand p - b.iopCurves.supply p
      else b.iopCurves.supply p - b.iopCurves.demand p := by
    rw [Curves.surplus]
    split <;> omega
  rw [candidate, hsurplus]
  rfl

lemma Notes.step {best : Candidate} {o : Option ℤ} {p : ℤ} (h : b.Notes best o)
    (hlt : ∀ q ∈ o, q < p) : b.Notes (b.iopStep best p) (b.iopCurves.pick o p) := by
  rw [iopStep_eq]
  cases o with
  | none =>
    have hzero : best.volume = 0 := h
    rw [Curves.pick]
    by_cases hpos : 0 < b.iopCurves.volume p
    · rw [if_pos hpos, if_pos (Or.inl (by rw [hzero]; exact hpos))]
      exact ⟨rfl, hpos⟩
    · rw [if_neg hpos]
      split
      · exact Nat.eq_zero_of_not_pos hpos
      · exact hzero
  | some q =>
    obtain ⟨rfl, hpos⟩ := h
    have hqp : q < p := hlt q rfl
    -- among the higher prices, one that leaves buyers over is preferred
    have hiff : ((b.candidate p).volume > (b.candidate q).volume ∨
        ((b.candidate p).volume = (b.candidate q).volume ∧
          (b.candidate p).surplus < (b.candidate q).surplus) ∨
        ((b.candidate p).volume = (b.candidate q).volume ∧
          (b.candidate p).surplus = (b.candidate q).surplus ∧
          (b.candidate p).buySurplus = true ∧ p > (b.candidate q).price)) ↔
        b.iopCurves.Beats p q := by
      by_cases hbuy : b.iopCurves.BuySurplus p
      · simp only [candidate, Curves.Beats, hbuy, hqp, decide_true, if_true, gt_iff_lt,
          and_true, implies_true]
        tauto
      · simp only [candidate, Curves.Beats, hbuy, hqp.not_gt, decide_false, if_false, gt_iff_lt,
          Bool.false_eq_true, false_and, and_false, or_false]
    rw [Curves.pick]
    by_cases hbeats : b.iopCurves.Beats p q
    · rw [if_pos hbeats, if_pos (hiff.mpr hbeats)]
      refine ⟨rfl, hpos.trans_le ?_⟩
      rcases hbeats with hmore | ⟨heq, -⟩
      · exact hmore.le
      · exact heq.ge
    · rw [if_neg hbeats, if_neg (mt hiff.mp hbeats)]
      exact ⟨rfl, hpos⟩

lemma Notes.scan {prices : List ℤ} {best : Candidate} {o : Option ℤ} (h : b.Notes best o)
    (hsorted : prices.Pairwise (· < ·)) (hlt : ∀ q ∈ o, ∀ p ∈ prices, q < p) :
    b.Notes (prices.foldl b.iopStep best) (prices.foldl b.iopCurves.pick o) := by
  induction prices generalizing best o with
  | nil => exact h
  | cons p prices ih =>
    refine ih (h.step fun q hq => hlt q hq p (by simp)) hsorted.of_cons fun q hq r hr => ?_
    have hpr : p < r := List.rel_of_pairwise_cons hsorted hr
    cases o with
    | none =>
      rw [Curves.pick] at hq
      split at hq
      · cases hq
        exact hpr
      · cases hq
    | some q' =>
      rw [Curves.pick] at hq
      split at hq
      · cases hq
        exact hpr
      · cases hq
        exact (hlt q rfl p (by simp)).trans hpr

/-- Without a bid or without an ask there is no volume. -/
lemma iopVolume_eq_zero (h : b.bids.entries = [] ∨ b.asks.entries = []) (p : ℤ) :
    b.iopCurves.volume p = 0 := by
  rcases h with h | h
  · simp [Curves.volume, iopCurves, cumQty, h]
  · simp [Curves.volume, iopCurves, cumQty, h]

/-- What `getIOP` returns: 0 if no order price has a volume, and the best one otherwise. -/
theorem getIOP_spec (b : Book) :
    (b.getIOP = 0 ∧ ∀ p, b.IsPrice p → b.iopCurves.volume p = 0) ∨
      b.iopCurves.IsBest b.candidatePrices b.getIOP := by
  by_cases hempty : b.bids.entries = [] ∨ b.asks.entries = []
  · refine Or.inl ⟨?_, fun p _ => iopVolume_eq_zero hempty p⟩
    rw [getIOP, if_pos (by simpa using hempty)]
  · have hgo : ¬(b.bids.entries.isEmpty || b.asks.entries.isEmpty) = true := by
      simpa using hempty
    have hstart : b.Notes ⟨0, 0, 2 ^ 64 - 1, false⟩ none := rfl
    have hnotes := hstart.scan b.candidatePrices_sorted (by simp)
    have hfound := b.iopCurves.found_scan b.candidatePrices
    rw [getIOP, if_neg hgo]
    cases hscan : b.candidatePrices.foldl b.iopCurves.pick none with
    | none =>
      rw [hscan] at hnotes hfound
      have hzero :
          (b.candidatePrices.foldl b.iopStep ⟨0, 0, 2 ^ 64 - 1, false⟩).volume = 0 := hnotes
      refine Or.inl ⟨if_neg (by rw [hzero]; exact lt_irrefl 0), fun p hp => ?_⟩
      exact hfound p (mem_candidatePrices.mpr hp)
    | some q =>
      rw [hscan] at hnotes hfound
      obtain ⟨hbest, hpos⟩ := hnotes
      rw [hbest]
      apply Or.inr
      simp only [candidate, gt_iff_lt, hpos, if_true]
      exact hfound

/-! ### The sums -/

lemma sumRemaining_mod (orders : List Order) {acc : ℕ} (h : acc < 2 ^ 64) :
    sumRemaining orders acc = (acc + openTotal orders) % 2 ^ 64 := by
  induction orders generalizing acc with
  | nil => exact (Nat.mod_eq_of_lt h).symm
  | cons o orders ih =>
    show sumRemaining orders ((acc + o.remainingQty) % 2 ^ 64) = _
    rw [ih (Nat.mod_lt _ (by decide)), openTotal_cons, Nat.mod_add_mod, Nat.add_assoc]

/-- The sums over the levels are those over the orders, in 64 bits. -/
lemma cumQty_eq {s : Side} {levels : Levels s} (hOK : levels.OK) (takes : ℤ → Bool) :
    cumQty levels takes = openTotal (levels.elems.filter fun o => takes o.price) % 2 ^ 64 := by
  have hfold : ∀ es : List (ℤ × List Order), (∀ level ∈ es, LevelOK s level) → ∀ acc < 2 ^ 64,
      es.foldl (fun acc level => if takes level.1 then sumRemaining level.2 acc else acc) acc
        = (acc + openTotal ((Sweep.ungroup es).filter fun o => takes o.price)) % 2 ^ 64 := by
    intro es
    induction es with
    | nil => exact fun _ acc hacc => (Nat.mod_eq_of_lt hacc).symm
    | cons level es ih =>
      intro hes acc hacc
      have hlevel := hes level (by simp)
      have hrest := ih fun level' hl => hes level' (by simp [hl])
      rw [List.foldl_cons, Sweep.ungroup_cons, List.filter_append, openTotal_append]
      cases htakes : takes level.1 with
      | true =>
        have hall : level.2.filter (fun o => takes o.price) = level.2 :=
          List.filter_eq_self.mpr fun o ho => by rw [hlevel.price o ho, htakes]
        rw [if_pos rfl, hall, sumRemaining_mod _ hacc, hrest _ (Nat.mod_lt _ (by decide)),
          Nat.mod_add_mod, Nat.add_assoc]
      | false =>
        have hnone : level.2.filter (fun o => takes o.price) = [] :=
          List.filter_eq_nil_iff.mpr fun o ho => by simp [hlevel.price o ho, htakes]
        rw [if_neg (by simp), hnone, hrest _ hacc, openTotal_nil, Nat.zero_add]
  have h := hfold levels.entries hOK 0 (by decide)
  rw [Nat.zero_add] at h
  exact h

lemma iopCurves_demand (h : b.Shape) (p : ℤ) :
    b.iopCurves.demand p = b.curves.demand p % 2 ^ 64 :=
  cumQty_eq (h.levels .buy) fun bidPrice => bidPrice ≥ p

lemma iopCurves_supply (h : b.Shape) (p : ℤ) :
    b.iopCurves.supply p = b.curves.supply p % 2 ^ 64 :=
  cumQty_eq (h.levels .sell) fun askPrice => askPrice ≤ p

lemma demand_le (b : Book) (p : ℤ) : b.curves.demand p ≤ openTotal (b.resting .buy) :=
  openTotal_filter_le _ _

lemma supply_le (b : Book) (p : ℤ) : b.curves.supply p ≤ openTotal (b.resting .sell) :=
  openTotal_filter_le _ _

/-- Sums that fit are exact. -/
lemma iopCurves_eq (h : b.Shape) (hfits : ∀ s, openTotal (b.resting s) < 2 ^ 64) :
    b.iopCurves = b.curves := by
  have hdemand : b.iopCurves.demand = b.curves.demand := funext fun p => by
    rw [iopCurves_demand h, Nat.mod_eq_of_lt ((b.demand_le p).trans_lt (hfits .buy))]
  have hsupply : b.iopCurves.supply = b.curves.supply := funext fun p => by
    rw [iopCurves_supply h, Nat.mod_eq_of_lt ((b.supply_le p).trans_lt (hfits .sell))]
  calc b.iopCurves = ⟨b.iopCurves.demand, b.iopCurves.supply⟩ := rfl
    _ = ⟨b.curves.demand, b.curves.supply⟩ := by rw [hdemand, hsupply]

/-! ### The optimum -/

lemma Shape.isPrice_iff (h : b.Shape) {p : ℤ} :
    b.IsPrice p ↔ ∃ s, ∃ o ∈ b.resting s, o.price = p := by
  constructor
  · rintro (hp | hp)
    · exact ⟨.buy, (h.levels .buy).exists_of_mem_keys hp⟩
    · exact ⟨.sell, (h.levels .sell).exists_of_mem_keys hp⟩
  · rintro ⟨s, o, ho, rfl⟩
    cases s with
    | buy => exact Or.inl ((h.levels .buy).price ho)
    | sell => exact Or.inr ((h.levels .sell).price ho)

/-- A price is as good as another in volume and surplus. -/
def Ties (b : Book) (p q : ℤ) : Prop :=
  b.curves.volume p = b.curves.volume q ∧ b.curves.surplus p = b.curves.surplus q

/-- The optimal price of the auction. -/
structure OptimalPrice (b : Book) (p : ℤ) : Prop where
  isPrice : ∃ s, ∃ o ∈ b.resting s, o.price = p
  volume : ∀ q, b.curves.volume q ≤ b.curves.volume p
  surplus : ∀ s, ∀ o ∈ b.resting s, b.curves.volume o.price = b.curves.volume p →
    b.curves.surplus p ≤ b.curves.surplus o.price
  highest : ∀ s, ∀ o ∈ b.resting s, b.Ties o.price p → b.curves.BuySurplus o.price →
    b.curves.BuySurplus p ∧ o.price ≤ p
  lowest : ¬b.curves.BuySurplus p → ∀ s, ∀ o ∈ b.resting s, b.Ties o.price p → p ≤ o.price

/-- A volume at any price shows at an order price. -/
lemma Shape.exists_volume_le (h : b.Shape) {p : ℤ} (hp : 0 < b.curves.volume p) :
    ∃ q, b.IsPrice q ∧ b.curves.volume p ≤ b.curves.volume q := by
  obtain ⟨o, ho, hle⟩ := Curves.exists_volume_le Order.price Order.remainingQty
    (b.resting .buy) (b.resting .sell) hp
  exact ⟨o.price, h.isPrice_iff.mpr ⟨.sell, o, ho, rfl⟩, hle⟩

lemma Shape.optimalPrice (h : b.Shape) {p : ℤ} (hbest : b.curves.IsBest b.candidatePrices p) :
    b.OptimalPrice p := by
  have hnot : ∀ s, ∀ o ∈ b.resting s, ¬b.curves.Beats o.price p := fun s o ho =>
    hbest.best o.price (mem_candidatePrices.mpr (h.isPrice_iff.mpr ⟨s, o, ho, rfl⟩))
  refine ⟨h.isPrice_iff.mp (mem_candidatePrices.mp hbest.mem), fun q => ?_, ?_, ?_, ?_⟩
  · rcases Nat.eq_zero_or_pos (b.curves.volume q) with hzero | hpos
    · rw [hzero]
      exact Nat.zero_le _
    · obtain ⟨r, hr, hle⟩ := h.exists_volume_le hpos
      exact hle.trans (Curves.volume_le (hbest.best r (mem_candidatePrices.mpr hr)))
  · exact fun s o ho heq => Curves.surplus_le (hnot s o ho) heq
  · exact fun s o ho htie hbuy => Curves.of_buySurplus (hnot s o ho) htie.1 htie.2 hbuy
  · intro hnone s o ho htie
    by_cases hbuy : b.curves.BuySurplus o.price
    · exact absurd (Curves.of_buySurplus (hnot s o ho) htie.1 htie.2 hbuy).1 hnone
    · exact Curves.of_not_buySurplus (hnot s o ho) htie.1 htie.2 hbuy hnone

/-- As long as the open quantity of each side fits 64 bits, `getIOP` returns the optimal price, and
0 where no price has a volume. -/
theorem getIOP_optimal (symbolIdx : ℕ) (ops : List BookOp)
    (hfits : ∀ s, openTotal ((run symbolIdx ops).1.resting s) < 2 ^ 64) :
    let b := (run symbolIdx ops).1
    ((∀ p, b.curves.volume p = 0) → b.getIOP = 0) ∧
    ((∃ p, 0 < b.curves.volume p) → b.OptimalPrice b.getIOP) := by
  intro b
  have h : b.Shape := (sound_run symbolIdx ops).shape
  have hspec := b.getIOP_spec
  rw [iopCurves_eq h hfits] at hspec
  constructor
  · intro hzero
    rcases hspec with ⟨hiop, -⟩ | hbest
    · exact hiop
    · exact absurd (hzero b.getIOP) hbest.pos.ne'
  · rintro ⟨p, hp⟩
    rcases hspec with ⟨-, hzero⟩ | hbest
    · obtain ⟨q, hq, hle⟩ := h.exists_volume_le hp
      have hpos := hp.trans_le hle
      rw [hzero q hq] at hpos
      exact absurd hpos (lt_irrefl 0)
    · exact h.optimalPrice hbest

/-- A bid for 5 at 102 and an offer of 5 at 100 meet at the lower price. -/
theorem getIOP_optimal_twoOrders :
    let b := (run 1 [.setPhase .preOpen, .newOrder (dayLimit .buy 102 5 1),
      .newOrder (dayLimit .sell 100 5 2)]).1
    ((∀ p, b.curves.volume p = 0) → b.getIOP = 0) ∧
    ((∃ p, 0 < b.curves.volume p) → b.OptimalPrice b.getIOP) :=
  getIOP_optimal 1 [.setPhase .preOpen, .newOrder (dayLimit .buy 102 5 1),
    .newOrder (dayLimit .sell 100 5 2)] fun s => by cases s <;> decide

end Book

end EuNEx
