import EuNEx.Actors.Positions
import Mathlib.Tactic.FieldSimp

/-!
# Average costs and flat positions

What `processTradeSide` writes into a holding. The average is weighted with the absolute values of
quantities, which is right as long as a buy adds to a position; a buy that covers part of a short
position gives a cost that nobody paid. A position that a sell brings to zero is erased, but one
that a buy brings to zero stays.
-/

namespace EuNEx

open Tally (balance)

/-! ### The average -/

/-- Dropping the fraction stays between any two prices. -/
lemma toFixedPrice_between {x : ℚ} {lo hi : ℤ} (hlo : lo ≤ x * priceScale)
    (hhi : x * priceScale ≤ hi) : lo ≤ toFixedPrice x ∧ toFixedPrice x ≤ hi := by
  rw [toFixedPrice]
  split
  · exact ⟨Int.le_floor.mpr hlo, by exact_mod_cast (Int.floor_le _).trans hhi⟩
  · exact ⟨by exact_mod_cast hlo.trans (Int.le_ceil _), Int.ceil_le.mpr hhi⟩

/-- A weighted average lies between the two prices. -/
lemma average_between (avg p : ℤ) {q n : ℚ} (hq : 0 ≤ q) (hn : 0 ≤ n) (hpos : 0 < q + n) :
    min avg p ≤ toFixedPrice ((toDouble avg * q + toDouble p * n) / (q + n)) ∧
      toFixedPrice ((toDouble avg * q + toDouble p * n) / (q + n)) ≤ max avg p := by
  have hscale : (priceScale : ℚ) ≠ 0 := by simp [priceScale]
  have heq : (toDouble avg * q + toDouble p * n) / (q + n) * priceScale
      = (avg * q + p * n) / (q + n) := by
    unfold toDouble
    field_simp
  apply toFixedPrice_between
  · rw [heq, le_div_iff₀ hpos, mul_add]
    have h₁ : ((min avg p : ℤ) : ℚ) * q ≤ avg * q :=
      mul_le_mul_of_nonneg_right (by exact_mod_cast min_le_left _ _) hq
    have h₂ : ((min avg p : ℤ) : ℚ) * n ≤ p * n :=
      mul_le_mul_of_nonneg_right (by exact_mod_cast min_le_right _ _) hn
    exact add_le_add h₁ h₂
  · rw [heq, div_le_iff₀ hpos, mul_add]
    have h₁ : (avg : ℚ) * q ≤ ((max avg p : ℤ) : ℚ) * q :=
      mul_le_mul_of_nonneg_right (by exact_mod_cast le_max_left _ _) hq
    have h₂ : (p : ℚ) * n ≤ ((max avg p : ℤ) : ℚ) * n :=
      mul_le_mul_of_nonneg_right (by exact_mod_cast le_max_right _ _) hn
    exact add_le_add h₁ h₂

/-- Some of the trades were no dearer than the price, and some no cheaper. -/
def Spanned (trades : List Trade) (price : ℤ) : Prop :=
  (∃ t ∈ trades, t.price ≤ price) ∧ ∃ t ∈ trades, price ≤ t.price

instance (trades : List Trade) (price : ℤ) : Decidable (Spanned trades price) :=
  inferInstanceAs (Decidable (_ ∧ _))

lemma Spanned.mono {trades trades' : List Trade} {price : ℤ} (h : Spanned trades price)
    (hsub : ∀ t ∈ trades, t ∈ trades') : Spanned trades' price := by
  obtain ⟨⟨t, ht, hle⟩, t', ht', hge⟩ := h
  exact ⟨⟨t, hsub t ht, hle⟩, t', hsub t' ht', hge⟩

/-- A price between a spanned one and that of a trade is spanned. -/
lemma Spanned.between {trades : List Trade} {price price' : ℤ} {t : Trade}
    (h : Spanned trades price) (ht : t ∈ trades) (hmin : min price t.price ≤ price')
    (hmax : price' ≤ max price t.price) : Spanned trades price' := by
  obtain ⟨⟨t₁, ht₁, hle⟩, t₂, ht₂, hge⟩ := h
  constructor
  · rcases min_le_iff.mp hmin with hmin | hmin
    · exact ⟨t₁, ht₁, hle.trans hmin⟩
    · exact ⟨t, ht, hmin⟩
  · rcases le_max_iff.mp hmax with hmax | hmax
    · exact ⟨t₂, ht₂, hmax.trans hge⟩
    · exact ⟨t, ht, hmax⟩

namespace MemberState

variable {m : MemberState} {symbolIdx : ℕ} {price : ℤ} {qty : ℕ} {isBuy : Bool}
  {h h' : MemberHolding} {own : ℕ → List Trade} {who : Option ℕ} {t : Trade}

/-- Unless a buy covers part of a short position, the new cost lies between the old one and the
price. -/
lemma avgCost_newHolding (hnew : newHolding .exact symbolIdx price qty isBuy (some h) = some h')
    (hcover : isBuy = true → h.quantity < 0 → 0 < qty → h.quantity + qty = 0) :
    min h.avgCost price ≤ h'.avgCost ∧ h'.avgCost ≤ max h.avgCost price := by
  cases isBuy with
  | false =>
    by_cases hz : Arithmetic.exact.reduce (h.quantity - qty) = 0
    · simp [newHolding, hz] at hnew
    · simp only [newHolding, Bool.false_eq_true, if_false, if_neg hz, Option.some.injEq] at hnew
      subst hnew
      exact ⟨min_le_left _ _, le_max_left _ _⟩
  | true =>
    by_cases hz : Arithmetic.exact.reduce (h.quantity + qty) = 0
    · simp only [newHolding, if_true, if_neg (not_not.mpr hz), Option.some.injEq] at hnew
      subst hnew
      exact ⟨min_le_left _ _, le_max_left _ _⟩
    · -- the buy adds to the position, so the weights add up
      simp only [newHolding, if_true, if_pos hz, Option.some.injEq] at hnew
      subst hnew
      have hz : h.quantity + qty ≠ 0 := hz
      have habs : |h.quantity + (qty : ℤ)| = |h.quantity| + qty := by
        by_cases hneg : h.quantity < 0
        · have hqty : qty = 0 := by
            by_contra hne
            exact hz (hcover rfl hneg (Nat.pos_of_ne_zero hne))
          simp [hqty]
        · rw [abs_of_nonneg (by omega), abs_of_nonneg (by omega)]
      have hpos : (0 : ℚ) < |(h.quantity : ℚ)| + qty := by
        have hlt : 0 < |h.quantity + (qty : ℤ)| := abs_pos.mpr hz
        rw [habs] at hlt
        exact_mod_cast hlt
      have hcast : ((|h.quantity + (qty : ℤ)| : ℤ) : ℚ) = |(h.quantity : ℚ)| + qty := by
        rw [habs]
        push_cast
        rfl
      have hbetween := average_between h.avgCost price (abs_nonneg _)
        (Nat.cast_nonneg qty) hpos
      simpa [Arithmetic.reduce, hcast] using hbetween

/-- The cost of every holding is spanned by the trades in its symbol. -/
def Costs (m : MemberState) (own : ℕ → List Trade) : Prop :=
  ∀ s, ∀ h ∈ m.holdings.lookup s, Spanned (own s) h.avgCost

lemma Costs.takeSide (hcosts : m.Costs own) (who : Option ℕ) (isBuy : Bool)
    (hown : who = some m.memberId → t ∈ own t.symbolIdx)
    (hcover : who = some m.memberId → isBuy = true → m.position t.symbolIdx < 0 →
      0 < t.quantity → m.position t.symbolIdx + t.quantity = 0) :
    (m.takeSide .exact who t isBuy).Costs own := by
  rw [MemberState.takeSide]
  split
  · rename_i hwho
    intro s h' hh'
    rw [lookup_processTradeSide] at hh'
    split at hh'
    · rename_i hs
      subst hs
      have hcover := hcover hwho
      rw [position] at hcover
      cases hlookup : m.holdings.lookup t.symbolIdx with
      | none =>
        rw [hlookup] at hh'
        cases hh'
        exact ⟨⟨t, hown hwho, le_rfl⟩, t, hown hwho, le_rfl⟩
      | some h =>
        rw [hlookup] at hh' hcover
        obtain ⟨hmin, hmax⟩ := avgCost_newHolding hh' hcover
        exact (hcosts _ h hlookup).between (hown hwho) hmin hmax
    · exact hcosts s h' hh'
  · exact hcosts

end MemberState

namespace ClearingHouseActor

variable {a : ClearingHouseActor} {sessions : Finmap fun _ : ℕ => ℕ} {t : Trade}
  {trades : List Trade}

/-- The trades of a member in a symbol. -/
def ownTrades (sessions : Finmap fun _ : ℕ => ℕ) (id s : ℕ) (trades : List Trade) : List Trade :=
  trades.filter fun t => t.symbolIdx = s ∧
    (sessions.lookup t.buySessionId = some id ∨ sessions.lookup t.sellSessionId = some id)

/-- The average cost of an open position is between two prices that the member traded at. -/
def RealAverages (a : ClearingHouseActor) (trades : List Trade) : Prop :=
  ∀ m ∈ a.members, ∀ s, ∀ h ∈ m.holdings.lookup s, h.quantity ≠ 0 →
    Spanned (ownTrades a.sessionToMember m.memberId s trades) h.avgCost

/-- If the buyer is short in the symbol, and the quantity is positive, the trade brings the position
of the buyer to zero. -/
def CoversInFull (a : ClearingHouseActor) (t : Trade) : Prop :=
  ∀ m ∈ a.members, a.sessionToMember.lookup t.buySessionId = some m.memberId →
    m.position t.symbolIdx < 0 → 0 < t.quantity → m.position t.symbolIdx + t.quantity = 0

instance (a : ClearingHouseActor) (t : Trade) : Decidable (a.CoversInFull t) :=
  inferInstanceAs (Decidable (∀ m ∈ a.members, _ → _))

/-- The cost of every holding is spanned, that of a flat one included. -/
def AllCosts (a : ClearingHouseActor) (trades : List Trade) : Prop :=
  ∀ m ∈ a.members, m.Costs fun s => ownTrades a.sessionToMember m.memberId s trades

lemma AllCosts.onEvent (h : a.AllCosts trades) (hcover : a.CoversInFull t) :
    (a.onEvent .exact t).AllCosts (trades ++ [t]) := by
  intro m hm
  rw [members_onEvent] at hm
  obtain ⟨m₀, hm₀, rfl⟩ := List.mem_map.mp hm
  rw [sessionToMember_onEvent, MemberState.memberId_handle]
  have hmono : m₀.Costs fun s => ownTrades a.sessionToMember m₀.memberId s (trades ++ [t]) := by
    intro s h' hh'
    apply (h m₀ hm₀ s h' hh').mono
    intro t' ht'
    simp only [ownTrades, List.filter_append, List.mem_append]
    exact Or.inl ht'
  have hbuy := hmono.takeSide (t := t) (a.sessionToMember.lookup t.buySessionId) true
    (fun hwho => by simp [ownTrades, hwho]) (fun hwho _ => hcover m₀ hm₀ hwho)
  refine hbuy.takeSide (a.sessionToMember.lookup t.sellSessionId) false (fun hwho => ?_)
    (fun _ hfalse => by cases hfalse)
  rw [MemberState.memberId_takeSide] at hwho
  simp [ownTrades, hwho]

/-- As long as buys cover short positions in full, every average cost is one the member could
have paid. -/
theorem run_averages (pairs : List (ℕ × ℕ)) (trades : List Trade)
    (hcover : Machine.Along (Machine.recording (step .exact)) (fun s t => s.1.CoversInFull t)
      (mapped pairs, []) trades) :
    Machine.Throughout (Machine.recording (step .exact)) (fun s => s.1.RealAverages s.2)
      (mapped pairs, []) trades := by
  have hstart : (mapped pairs).AllCosts [] := by
    intro m hm s h hh
    simp [lookup_mapped hm] at hh
  have hcosts : Machine.Throughout (Machine.recording (step .exact)) (fun s => s.1.AllCosts s.2)
      (mapped pairs, []) trades :=
    Machine.throughout_of_along (fun s t hC hP => AllCosts.onEvent hP hC) hcover hstart
  exact hcosts.mono fun s h m hm symbolIdx holding hh _ => h m hm symbolIdx holding hh

/-- Member 1 goes short, covers its position, and buys at two prices. -/
theorem run_averages_cover :
    let trades := [tradeBetween 101 100 1 120 5, tradeBetween 100 101 1 100 5,
      tradeBetween 100 101 1 90 4, tradeBetween 100 101 1 110 4]
    Machine.Throughout (Machine.recording (step .exact)) (fun s => s.1.RealAverages s.2)
      (mapped [(100, 1), (101, 2)], []) trades :=
  run_averages _ _ ⟨by decide, by decide, by decide, by decide, trivial⟩

/-- Member 1 sells 10 at 100 and buys 5 back at 100: the cost of the 5 it is short is 300. -/
theorem not_averages_partial_cover : ¬∀ (pairs : List (ℕ × ℕ)) (trades : List Trade),
    Machine.Throughout (Machine.recording (step .exact)) (fun s => s.1.RealAverages s.2)
      (mapped pairs, []) trades := by
  intro h
  have hlast := (h [(100, 1), (101, 2)]
    [tradeBetween 101 100 1 100 10, tradeBetween 100 101 1 100 5]).2.2
  have hspan := hlast _ (List.head_mem (by decide)) 1 ⟨1, -5, 300⟩ (by decide +kernel) (by decide)
  exact absurd hspan (by decide +kernel)

end ClearingHouseActor

/-! ### Flat positions -/

namespace MemberState

variable {arith : Arithmetic} {m : MemberState} {sessions : Finmap fun _ : ℕ => ℕ} {t : Trade}
  {trades : List Trade} {o : Option MemberHolding} {symbolIdx : ℕ} {price : ℤ} {qty : ℕ}

/-- No holding is flat. -/
def NoneFlat (m : MemberState) : Prop := ∀ s, ∀ h ∈ m.holdings.lookup s, h.quantity ≠ 0

/-- A sell leaves no flat holding behind. -/
lemma newHolding_sell (hpos : 0 < qty) (hlt : qty < 2 ^ 64) :
    ∀ h ∈ newHolding arith symbolIdx price qty false o, h.quantity ≠ 0 := by
  intro h hh
  cases o with
  | none =>
    cases hh
    exact arith.reduce_ne_zero (by simp [signed]; omega) (by simp [signed]; omega)
      (by simp [signed]; omega)
  | some h' =>
    by_cases hz : arith.reduce (h'.quantity - qty) = 0
    · simp [newHolding, hz] at hh
    · simp only [newHolding, Bool.false_eq_true, if_false, if_neg hz, Option.mem_some_iff] at hh
      subst hh
      exact hz

/-- A buy leaves a flat holding behind exactly if the position comes to zero. -/
lemma newHolding_buy :
    (∀ h ∈ newHolding arith symbolIdx price qty true o, h.quantity ≠ 0) ↔
      arith.reduce ((o.map MemberHolding.quantity).getD 0 + qty) ≠ 0 := by
  cases o with
  | none => simp [newHolding, signed]
  | some h => simp [newHolding]

lemma position_eq (m : MemberState) (s : ℕ) :
    m.position s = ((m.holdings.lookup s).map MemberHolding.quantity).getD 0 := by
  rw [position]
  cases m.holdings.lookup s <;> rfl

/-- A trade leaves the member a flat holding exactly if it is the buyer, not the seller as well,
and the position comes to zero. -/
theorem noneFlat_handle (h : m.NoneFlat) (hpos : 0 < t.quantity) (hlt : t.quantity < 2 ^ 64) :
    (m.handle arith sessions t).NoneFlat ↔
      ¬(sessions.lookup t.buySessionId = some m.memberId ∧
        sessions.lookup t.sellSessionId ≠ some m.memberId ∧
        arith.reduce (m.position t.symbolIdx + t.quantity) = 0) := by
  have hother : ∀ s ≠ t.symbolIdx,
      (m.handle arith sessions t).holdings.lookup s = m.holdings.lookup s := by
    intro s hs
    unfold handle takeSide
    split <;> split <;> simp [lookup_processTradeSide, hs]
  have hiff : (m.handle arith sessions t).NoneFlat ↔
      ∀ h ∈ (m.handle arith sessions t).holdings.lookup t.symbolIdx, h.quantity ≠ 0 := by
    constructor
    · intro hnone
      exact hnone t.symbolIdx
    · intro hnone s
      by_cases hs : s = t.symbolIdx
      · exact hs ▸ hnone
      · rw [hother s hs]
        exact h s
  rw [hiff, handle]
  by_cases hsell : sessions.lookup t.sellSessionId = some m.memberId
  · have hleft : ∀ h ∈ newHolding arith t.symbolIdx t.price t.quantity false
        ((m.takeSide arith (sessions.lookup t.buySessionId) t true).holdings.lookup t.symbolIdx),
        h.quantity ≠ 0 := newHolding_sell hpos hlt
    rw [takeSide.eq_def _ (sessions.lookup t.sellSessionId), memberId_takeSide, if_pos hsell,
      lookup_processTradeSide, if_pos rfl]
    simpa [hsell] using hleft
  · rw [takeSide.eq_def _ (sessions.lookup t.sellSessionId), memberId_takeSide, if_neg hsell]
    by_cases hbuy : sessions.lookup t.buySessionId = some m.memberId
    · rw [takeSide, if_pos hbuy, lookup_processTradeSide, if_pos rfl, newHolding_buy, position_eq]
      simp [hbuy, hsell]
    · rw [takeSide, if_neg hbuy]
      simpa [hbuy] using h t.symbolIdx

end MemberState

namespace ClearingHouseActor

variable {arith : Arithmetic} {a : ClearingHouseActor} {sessions : Finmap fun _ : ℕ => ℕ}
  {t : Trade} {trades : List Trade}

/-- The symbols in which what the member bought is not what it sold. -/
def openSymbols (arith : Arithmetic) (sessions : Finmap fun _ : ℕ => ℕ) (id : ℕ)
    (trades : List Trade) : Finset ℕ :=
  (trades.map Trade.symbolIdx).toFinset.filter fun s =>
    arith.reduce (netQty sessions id s trades) ≠ 0

lemma mem_openSymbols {id s : ℕ} : s ∈ openSymbols arith sessions id trades ↔
    arith.reduce (netQty sessions id s trades) ≠ 0 := by
  simp only [openSymbols, Finset.mem_filter, List.mem_toFinset, and_iff_right_iff_imp]
  intro hne
  by_contra hmem
  apply hne
  have hzero : ∀ post : Trade → ℤ, (∀ t, t.symbolIdx ≠ s → post t = 0) →
      balance post trades = 0 := by
    intro post hpost
    exact Tally.balance_eq_zero fun t ht => hpost t fun hs => hmem (hs ▸ List.mem_map_of_mem ht)
  have hbought := hzero (boughtQty sessions id s) fun t ht => if_neg fun h => ht h.2
  have hsold := hzero (soldQty sessions id s) fun t ht => if_neg fun h => ht h.2
  rw [netQty, hbought, hsold, sub_zero, Arithmetic.reduce_zero]

/-- No holding is flat, and the two counts of a member's holdings are the number of symbols in
which the member has an open position. -/
structure FlatClosed (arith : Arithmetic) (a : ClearingHouseActor) (trades : List Trade) :
    Prop where
  holdings : ∀ m ∈ a.members, ∀ s, ∀ h ∈ m.holdings.lookup s, h.quantity ≠ 0
  distinctSymbols : ∀ m ∈ a.members,
    m.distinctSymbols = (openSymbols arith a.sessionToMember m.memberId trades).card
  holdingCount : ∀ e ∈ a.getLeaderboard,
    e.holdingCount = (openSymbols arith a.sessionToMember e.memberId trades).card

/-- The trade does not bring the position of a buyer, who is not the seller as well, to zero. -/
def BuyerStaysOpen (arith : Arithmetic) (a : ClearingHouseActor) (t : Trade) : Prop :=
  ∀ m ∈ a.members, ¬(a.sessionToMember.lookup t.buySessionId = some m.memberId ∧
    a.sessionToMember.lookup t.sellSessionId ≠ some m.memberId ∧
    arith.reduce (m.position t.symbolIdx + t.quantity) = 0)

/-- In a tally without flat holdings, a member holds the symbols in which it has an open
position. -/
lemma Accounted.keys_eq (h : a.Accounted arith sessions trades) {m : MemberState}
    (hm : m ∈ a.members) (hnone : m.NoneFlat) :
    m.holdings.keys = openSymbols arith sessions m.memberId trades := by
  ext s
  have hposition := (h.members m hm).position s
  rw [MemberState.position] at hposition
  rw [mem_openSymbols, ← hposition, Finmap.mem_keys, Finmap.mem_iff]
  cases hlookup : m.holdings.lookup s with
  | none => simp
  | some holding => simpa using hnone s holding hlookup

lemma Accounted.flatClosed_iff (h : a.Accounted arith sessions trades) :
    a.FlatClosed arith trades ↔ ∀ m ∈ a.members, m.NoneFlat := by
  constructor
  · intro hflat
    exact hflat.holdings
  · intro hnone
    have hcard : ∀ m ∈ a.members, m.holdings.keys.card
        = (openSymbols arith a.sessionToMember m.memberId trades).card := by
      intro m hm
      rw [h.sessionToMember, h.keys_eq hm (hnone m hm)]
    refine ⟨hnone, fun m hm => ?_, fun e he => ?_⟩
    · rw [(h.members m hm).distinctSymbols, hcard m hm]
    · rw [getLeaderboard, List.mem_insertionSort] at he
      obtain ⟨m, hm, rfl⟩ := List.mem_map.mp he
      exact hcard m hm

lemma flatClosed_onEvent_iff (h : a.Accounted arith sessions trades)
    (hflat : a.FlatClosed arith trades) (hpos : 0 < t.quantity) (hlt : t.quantity < 2 ^ 64) :
    (a.onEvent arith t).FlatClosed arith (trades ++ [t]) ↔ a.BuyerStaysOpen arith t := by
  have hnone := h.flatClosed_iff.mp hflat
  rw [(h.onEvent t).flatClosed_iff, members_onEvent]
  constructor
  · intro hall m hm
    exact (MemberState.noneFlat_handle (hnone m hm) hpos hlt).mp
      (hall _ (List.mem_map_of_mem hm))
  · intro hopen m' hm'
    obtain ⟨m, hm, rfl⟩ := List.mem_map.mp hm'
    exact (MemberState.noneFlat_handle (hnone m hm) hpos hlt).mpr (hopen m hm)

/-- For trades of positive quantity, flat positions are closed exactly as long as no buy brings a
position to zero. -/
theorem run_flat_iff (arith : Arithmetic) (pairs : List (ℕ × ℕ)) (trades : List Trade)
    (hqty : ∀ t ∈ trades, 0 < t.quantity ∧ t.quantity < 2 ^ 64) :
    Machine.Throughout (Machine.recording (step arith)) (fun s => s.1.FlatClosed arith s.2)
        (mapped pairs, []) trades ↔
      Machine.Along (Machine.recording (step arith)) (fun s t => s.1.BuyerStaysOpen arith t)
        (mapped pairs, []) trades := by
  have hstart := accounted_mapped arith pairs
  apply Machine.throughout_iff_along_of (A := fun _ t => 0 < t.quantity ∧ t.quantity < 2 ^ 64)
    (I := fun s => s.1.Accounted arith (mapped pairs).sessionToMember s.2)
  · intro s t _ hI
    exact hI.onEvent t
  · intro s t hA hI hP
    exact flatClosed_onEvent_iff hI hP hA.1 hA.2
  · exact Machine.along_of_forall hqty
  · exact hstart
  · exact hstart.flatClosed_iff.mpr fun m hm s h hh => by simp [lookup_mapped hm] at hh

/-- Member 1 buys, and sells what it bought. -/
theorem run_flat_iff_round_trip :
    let trades := [tradeBetween 100 101 1 100 5, tradeBetween 102 100 1 110 5]
    Machine.Throughout (Machine.recording (step .exact)) (fun s => s.1.FlatClosed .exact s.2)
        (mapped [(100, 1), (101, 2)], []) trades ↔
      Machine.Along (Machine.recording (step .exact)) (fun s t => s.1.BuyerStaysOpen .exact t)
        (mapped [(100, 1), (101, 2)], []) trades :=
  run_flat_iff .exact _ _ (by decide)

/-- Member 1 goes short and buys back what it sold: the flat holding stays. -/
theorem not_flat_covered : ¬∀ (arith : Arithmetic) (pairs : List (ℕ × ℕ)) (trades : List Trade),
    (∀ t ∈ trades, 0 < t.quantity ∧ t.quantity < 2 ^ 64) →
    Machine.Throughout (Machine.recording (step arith)) (fun s => s.1.FlatClosed arith s.2)
      (mapped pairs, []) trades := by
  intro h
  have hlast := (h .exact [(100, 1), (101, 2)]
    [tradeBetween 101 100 1 100 5, tradeBetween 100 101 1 100 5] (by decide)).2.2
  exact hlast.holdings _ (List.head_mem (by decide)) 1 ⟨1, 0, 100⟩ (by decide +kernel) rfl

end ClearingHouseActor

end EuNEx
