import EuNEx.Actors.ClearingHouse
import Mathlib.Tactic.Ring
import Mathlib.Tactic.Linarith

/-!
# Positions and capital

What the clearing house keeps for a member is a tally of the member's trades: a position in each
symbol, the capital, and a number of trades. The clearing house moves nothing in or out, so these
tallies sum to the same amounts whatever the trades, and their order does not matter.
-/

namespace EuNEx

open Tally (balance)

namespace Arithmetic

variable (arith : Arithmetic)

@[simp] lemma reduce_zero : arith.reduce 0 = 0 := by cases arith <;> simp [reduce]

@[simp] lemma reduce_reduce_add (n k : ℤ) :
    arith.reduce (arith.reduce n + k) = arith.reduce (n + k) := by
  cases arith with
  | exact => rfl
  | int64 => exact Int.bmod_add_bmod

@[simp] lemma reduce_reduce (n : ℤ) : arith.reduce (arith.reduce n) = arith.reduce n := by
  simpa using arith.reduce_reduce_add n 0

/-- A position that fits is stored as it is. -/
lemma reduce_of_fits {n : ℤ} (hle : -2 ^ 63 ≤ n) (hlt : n < 2 ^ 63) : arith.reduce n = n := by
  cases arith with
  | exact => rfl
  | int64 => exact Int.bmod_eq_of_le (by omega) (by omega)

/-- The quantity of a trade, which is positive and fits a `Quantity_t`, does not vanish. -/
lemma reduce_ne_zero {n : ℤ} (hpos : n ≠ 0) (hle : -2 ^ 64 < n) (hlt : n < 2 ^ 64) :
    arith.reduce n ≠ 0 := by
  cases arith with
  | exact => exact hpos
  | int64 =>
    intro h
    have hdvd := Int.dvd_of_bmod_eq_zero h
    omega

end Arithmetic

namespace MemberState

variable {arith : Arithmetic} {m : MemberState} {symbolIdx s : ℕ} {price : ℤ} {qty : ℕ}
  {isBuy : Bool}

/-- The quantity that a side of a trade adds to a position. -/
def signed (qty : ℕ) (isBuy : Bool) : ℤ := if isBuy then qty else -qty

/-- What becomes of the holding in the symbol of a trade. -/
def newHolding (arith : Arithmetic) (symbolIdx : ℕ) (price : ℤ) (qty : ℕ) (isBuy : Bool) :
    Option MemberHolding → Option MemberHolding
  | none => some ⟨symbolIdx, arith.reduce (signed qty isBuy), price⟩
  | some h =>
    if isBuy then
      some { h with
        quantity := arith.reduce (h.quantity + qty)
        avgCost := if arith.reduce (h.quantity + qty) ≠ 0 then
          toFixedPrice ((toDouble h.avgCost * |h.quantity| + toDouble price * qty)
            / |arith.reduce (h.quantity + qty)|) else h.avgCost }
    else if arith.reduce (h.quantity - qty) = 0 then none
    else some { h with quantity := arith.reduce (h.quantity - qty) }

/-- A side of a trade touches one holding. -/
theorem lookup_processTradeSide (s : ℕ) :
    (m.processTradeSide arith symbolIdx price qty isBuy).holdings.lookup s
      = if s = symbolIdx then newHolding arith symbolIdx price qty isBuy (m.holdings.lookup s)
        else m.holdings.lookup s := by
  by_cases hs : s = symbolIdx
  · subst hs
    cases hlookup : m.holdings.lookup s with
    | none => cases isBuy <;> simp [processTradeSide, newHolding, signed, hlookup]
    | some h =>
      cases isBuy with
      | true => simp [processTradeSide, newHolding, hlookup]
      | false =>
        by_cases hz : arith.reduce (h.quantity - qty) = 0 <;>
          simp [processTradeSide, newHolding, hlookup, hz]
  · cases hlookup : m.holdings.lookup symbolIdx with
    | none => simp [processTradeSide, hlookup, hs]
    | some h =>
      cases isBuy with
      | true => simp [processTradeSide, hlookup, hs]
      | false =>
        by_cases hz : arith.reduce (h.quantity - qty) = 0 <;>
          simp [processTradeSide, hlookup, hz, hs]

/-- What a side of a trade does to the rest. -/
lemma processTradeSide_frame :
    (m.processTradeSide arith symbolIdx price qty isBuy).memberId = m.memberId ∧
    (m.processTradeSide arith symbolIdx price qty isBuy).initialCapital = m.initialCapital ∧
    (m.processTradeSide arith symbolIdx price qty isBuy).tradeCount = m.tradeCount + 1 ∧
    (m.processTradeSide arith symbolIdx price qty isBuy).capital
      = m.capital - toDouble price * signed qty isBuy := by
  cases hlookup : m.holdings.lookup symbolIdx with
  | none => cases isBuy <;> simp [processTradeSide, signed, hlookup, sub_eq_add_neg]
  | some h =>
    cases isBuy with
    | true => simp [processTradeSide, signed, hlookup]
    | false =>
      by_cases hz : arith.reduce (h.quantity - qty) = 0 <;>
        simp [processTradeSide, signed, hlookup, hz]

/-- `distinctSymbols` follows the number of holdings. -/
lemma distinctSymbols_processTradeSide (h : m.distinctSymbols = m.holdings.keys.card) :
    (m.processTradeSide arith symbolIdx price qty isBuy).distinctSymbols
      = (m.processTradeSide arith symbolIdx price qty isBuy).holdings.keys.card := by
  have hkeys : ∀ h' : MemberHolding, symbolIdx ∈ m.holdings →
      (m.holdings.insert symbolIdx h').keys = m.holdings.keys := by
    intro h' hmem
    ext s
    simp only [Finmap.mem_keys, Finmap.mem_insert]
    constructor
    · rintro (rfl | hs)
      · exact hmem
      · exact hs
    · exact Or.inr
  cases hlookup : m.holdings.lookup symbolIdx with
  | none => simp [processTradeSide, hlookup]
  | some h' =>
    have hmem := Finmap.mem_of_lookup_eq_some hlookup
    cases isBuy with
    | true => simpa [processTradeSide, hlookup, hkeys _ hmem] using h
    | false =>
      by_cases hz : arith.reduce (h'.quantity - qty) = 0
      · simp [processTradeSide, hlookup, hz]
      · simpa [processTradeSide, hlookup, hz, hkeys _ hmem] using h

/-- The position in a symbol, 0 without a holding. -/
def position (m : MemberState) (s : ℕ) : ℤ :=
  match m.holdings.lookup s with
  | none => 0
  | some h => h.quantity

lemma position_processTradeSide {n : ℤ} (h : m.position s = arith.reduce n) :
    (m.processTradeSide arith symbolIdx price qty isBuy).position s
      = arith.reduce (n + if s = symbolIdx then signed qty isBuy else 0) := by
  rw [position] at h ⊢
  rw [lookup_processTradeSide]
  by_cases hs : s = symbolIdx
  · rw [if_pos hs, if_pos hs]
    cases hlookup : m.holdings.lookup s with
    | none =>
      rw [hlookup] at h
      rw [← arith.reduce_reduce_add, ← h, zero_add]
      rfl
    | some h' =>
      rw [hlookup] at h
      simp only at h
      rw [← arith.reduce_reduce_add, ← h]
      cases isBuy with
      | true => simp [newHolding, signed]
      | false =>
        by_cases hz : arith.reduce (h'.quantity - qty) = 0
        · simp [newHolding, signed, ← sub_eq_add_neg, hz]
        · simp [newHolding, signed, ← sub_eq_add_neg, hz]
  · simpa [hs] using h

/-! ### One trade -/

variable {who : Option ℕ} {t : Trade}

/-- One side of a trade, if it belongs to the member. -/
def takeSide (arith : Arithmetic) (who : Option ℕ) (t : Trade) (isBuy : Bool) (m : MemberState) :
    MemberState :=
  if who = some m.memberId then
    m.processTradeSide arith t.symbolIdx t.price t.quantity isBuy
  else m

@[simp] lemma memberId_takeSide : (m.takeSide arith who t isBuy).memberId = m.memberId := by
  rw [takeSide]
  split
  · exact processTradeSide_frame.1
  · rfl

@[simp] lemma initialCapital_takeSide :
    (m.takeSide arith who t isBuy).initialCapital = m.initialCapital := by
  rw [takeSide]
  split
  · exact processTradeSide_frame.2.1
  · rfl

lemma tradeCount_takeSide : (m.takeSide arith who t isBuy).tradeCount
    = m.tradeCount + if who = some m.memberId then 1 else 0 := by
  rw [takeSide]
  split
  · exact processTradeSide_frame.2.2.1
  · rfl

lemma capital_takeSide : (m.takeSide arith who t isBuy).capital
    = m.capital - if who = some m.memberId then toDouble t.price * signed t.quantity isBuy
      else 0 := by
  rw [takeSide]
  split
  · exact processTradeSide_frame.2.2.2
  · exact (sub_zero _).symm

lemma distinctSymbols_takeSide (h : m.distinctSymbols = m.holdings.keys.card) :
    (m.takeSide arith who t isBuy).distinctSymbols
      = (m.takeSide arith who t isBuy).holdings.keys.card := by
  rw [takeSide]
  split
  · exact distinctSymbols_processTradeSide h
  · exact h

lemma position_takeSide (who : Option ℕ) (t : Trade) (isBuy : Bool) {n : ℤ}
    (h : m.position s = arith.reduce n) :
    (m.takeSide arith who t isBuy).position s = arith.reduce
      (n + if who = some m.memberId ∧ t.symbolIdx = s then signed t.quantity isBuy else 0) := by
  rw [takeSide]
  split
  · rename_i hwho
    rw [position_processTradeSide h]
    simp [hwho, eq_comm]
  · rename_i hwho
    simpa [hwho] using h

/-- What handling a trade does to one member, who may be its buyer and its seller. -/
def handle (arith : Arithmetic) (sessions : Finmap fun _ : ℕ => ℕ) (t : Trade) (m : MemberState) :
    MemberState :=
  (m.takeSide arith (sessions.lookup t.buySessionId) t true).takeSide arith
    (sessions.lookup t.sellSessionId) t false

end MemberState

/-! ### What a trade posts -/

section

variable (sessions : Finmap fun _ : ℕ => ℕ) (id s : ℕ) (t : Trade)

def boughtQty : ℤ :=
  if sessions.lookup t.buySessionId = some id ∧ t.symbolIdx = s then t.quantity else 0

def soldQty : ℤ :=
  if sessions.lookup t.sellSessionId = some id ∧ t.symbolIdx = s then t.quantity else 0

def boughtValue : ℚ :=
  if sessions.lookup t.buySessionId = some id then toDouble t.price * t.quantity else 0

def soldValue : ℚ :=
  if sessions.lookup t.sellSessionId = some id then toDouble t.price * t.quantity else 0

def sidesTaken : ℕ :=
  (if sessions.lookup t.buySessionId = some id then 1 else 0) +
    if sessions.lookup t.sellSessionId = some id then 1 else 0

/-- Bought less sold. -/
def netQty (trades : List Trade) : ℤ :=
  balance (boughtQty sessions id s) trades - balance (soldQty sessions id s) trades

lemma netQty_snoc (trades : List Trade) : netQty sessions id s (trades ++ [t])
    = netQty sessions id s trades + boughtQty sessions id s t - soldQty sessions id s t := by
  simp only [netQty, Tally.balance_snoc]
  ring

end

/-- The state of a member is the tally of the trades. -/
structure MemberState.Accounted (arith : Arithmetic) (sessions : Finmap fun _ : ℕ => ℕ)
    (m : MemberState) (trades : List Trade) : Prop where
  position : ∀ s, m.position s = arith.reduce (netQty sessions m.memberId s trades)
  initialCapital : m.initialCapital = ClearingHouseActor.initialCapital
  capital : m.capital = m.initialCapital - balance (boughtValue sessions m.memberId) trades
    + balance (soldValue sessions m.memberId) trades
  tradeCount : m.tradeCount = balance (sidesTaken sessions m.memberId) trades
  distinctSymbols : m.distinctSymbols = m.holdings.keys.card

namespace MemberState

variable {arith : Arithmetic} {m : MemberState} {sessions : Finmap fun _ : ℕ => ℕ} {t : Trade}
  {trades : List Trade}

@[simp] lemma memberId_handle : (m.handle arith sessions t).memberId = m.memberId := by
  simp [handle]

/-- Handling a trade posts it. -/
theorem Accounted.handle (h : m.Accounted arith sessions trades) :
    (m.handle arith sessions t).Accounted arith sessions (trades ++ [t]) where
  position s := by
    have hbuy := position_takeSide (sessions.lookup t.buySessionId) t true (h.position s)
    have hsell := position_takeSide (sessions.lookup t.sellSessionId) t false hbuy
    rw [memberId_handle, netQty_snoc, MemberState.handle, hsell, memberId_takeSide]
    congr 1
    simp only [boughtQty, soldQty, signed, if_true, Bool.false_eq_true, if_false]
    split_ifs <;> ring
  initialCapital := by simp [MemberState.handle, h.initialCapital]
  capital := by
    rw [MemberState.handle, capital_takeSide, capital_takeSide, h.capital]
    simp only [initialCapital_takeSide, memberId_takeSide, Tally.balance_snoc, boughtValue,
      soldValue, signed, if_true, Bool.false_eq_true, if_false]
    push_cast
    split_ifs <;> ring
  tradeCount := by
    rw [MemberState.handle, tradeCount_takeSide, tradeCount_takeSide, h.tradeCount]
    simp only [memberId_takeSide, Tally.balance_snoc, sidesTaken, add_assoc]
  distinctSymbols := distinctSymbols_takeSide (distinctSymbols_takeSide h.distinctSymbols)

end MemberState

/-! ### All members -/

namespace ClearingHouseActor

variable {arith : Arithmetic} {a : ClearingHouseActor} {sessions : Finmap fun _ : ℕ => ℕ}
  {t : Trade} {trades : List Trade}

/-- The ids of the members. -/
def memberIds : List ℕ := (List.range numMembers).map (· + 1)

lemma members_processTradeSide (t : Trade) (memberId : ℕ) (isBuy : Bool) :
    (a.processTradeSide arith memberId t.symbolIdx t.price t.quantity isBuy).members
      = a.members.map (MemberState.takeSide arith (some memberId) t isBuy) := by
  apply List.map_congr_left
  intro m _
  simp only [MemberState.takeSide, Option.some.injEq, eq_comm]

lemma map_takeSide_none (t : Trade) (isBuy : Bool) :
    a.members.map (MemberState.takeSide arith none t isBuy) = a.members := by
  conv_rhs => rw [← List.map_id a.members]
  exact List.map_congr_left fun m _ => by simp [MemberState.takeSide]

lemma sessionToMember_processTradeSide (arith : Arithmetic) (a : ClearingHouseActor)
    (memberId symbolIdx : ℕ) (price : ℤ) (qty : ℕ) (isBuy : Bool) :
    (a.processTradeSide arith memberId symbolIdx price qty isBuy).sessionToMember
      = a.sessionToMember := rfl

@[simp] lemma sessionToMember_onEvent (a : ClearingHouseActor) (t : Trade) :
    (a.onEvent arith t).sessionToMember = a.sessionToMember := by
  rw [onEvent]
  cases a.sessionToMember.lookup t.buySessionId <;> dsimp only <;> split <;> rfl

/-- Handling a trade is handling it for each member. -/
theorem members_onEvent (a : ClearingHouseActor) (t : Trade) : (a.onEvent arith t).members
    = a.members.map (MemberState.handle arith a.sessionToMember t) := by
  have hcomp : a.members.map (MemberState.handle arith a.sessionToMember t)
      = (a.members.map (MemberState.takeSide arith (a.sessionToMember.lookup t.buySessionId) t
          true)).map (MemberState.takeSide arith (a.sessionToMember.lookup t.sellSessionId) t
          false) := by
    rw [List.map_map]
    rfl
  have hfound : ∀ memberId isBuy, ∀ b : ClearingHouseActor,
      b.members.map (MemberState.takeSide arith (some memberId) t isBuy)
        = (b.processTradeSide arith memberId t.symbolIdx t.price t.quantity isBuy).members :=
    fun memberId isBuy b => (members_processTradeSide t memberId isBuy).symm
  rw [hcomp]
  cases hbuy : a.sessionToMember.lookup t.buySessionId with
  | none =>
    rw [map_takeSide_none]
    cases hsell : a.sessionToMember.lookup t.sellSessionId with
    | none => simp only [onEvent, hbuy, hsell, map_takeSide_none]
    | some seller => simp only [onEvent, hbuy, hsell, hfound]
  | some buyer =>
    rw [hfound]
    have hsessions := sessionToMember_processTradeSide arith a buyer t.symbolIdx t.price
      t.quantity true
    cases hsell : a.sessionToMember.lookup t.sellSessionId with
    | none => simp only [onEvent, hbuy, hsessions, hsell, map_takeSide_none]
    | some seller => simp only [onEvent, hbuy, hsessions, hsell, hfound]

/-- The clearing house is the tally of the trades, for each of its members. -/
structure Accounted (arith : Arithmetic) (sessions : Finmap fun _ : ℕ => ℕ)
    (a : ClearingHouseActor) (trades : List Trade) : Prop where
  sessionToMember : a.sessionToMember = sessions
  ids : a.members.map MemberState.memberId = memberIds
  members : ∀ m ∈ a.members, m.Accounted arith sessions trades

namespace Accounted

lemma onEvent (h : a.Accounted arith sessions trades) (t : Trade) :
    (a.onEvent arith t).Accounted arith sessions (trades ++ [t]) where
  sessionToMember := by rw [sessionToMember_onEvent, h.sessionToMember]
  ids := by
    rw [members_onEvent, List.map_map, ← h.ids]
    exact List.map_congr_left fun m _ => MemberState.memberId_handle
  members m hm := by
    rw [members_onEvent, h.sessionToMember] at hm
    obtain ⟨m', hm', rfl⟩ := List.mem_map.mp hm
    exact (h.members m' hm').handle

/-- What depends on the id of a member only is the same list for all tallies. -/
lemma map_members {β : Type*} (h : a.Accounted arith sessions trades) {f : MemberState → β}
    (g : ℕ → β) (hfg : ∀ m ∈ a.members, f m = g m.memberId) :
    a.members.map f = memberIds.map g := by
  rw [← h.ids, List.map_map]
  exact List.map_congr_left hfg

end Accounted

lemma members_mapped (pairs : List (ℕ × ℕ)) : (mapped pairs).members = initMembers := by
  have h : ∀ a : ClearingHouseActor, (pairs.foldl (fun a pair => a.mapSession pair.1 pair.2)
      a).members = a.members := by
    induction pairs with
    | nil => intro a; rfl
    | cons pair pairs ih => intro a; exact ih _
  exact h new

/-- Nobody holds anything at the start. -/
lemma lookup_mapped {pairs : List (ℕ × ℕ)} {m : MemberState} (hm : m ∈ (mapped pairs).members)
    (s : ℕ) : m.holdings.lookup s = none := by
  rw [members_mapped] at hm
  obtain ⟨i, -, rfl⟩ := List.mem_map.mp hm
  rfl

lemma accounted_mapped (arith : Arithmetic) (pairs : List (ℕ × ℕ)) :
    (mapped pairs).Accounted arith (mapped pairs).sessionToMember [] where
  sessionToMember := rfl
  ids := by
    rw [members_mapped, initMembers, List.map_map]
    rfl
  members m hm := by
    rw [members_mapped] at hm
    obtain ⟨i, -, rfl⟩ := List.mem_map.mp hm
    exact ⟨fun s => by simp [MemberState.position, netQty], rfl, by simp, rfl, rfl⟩

/-- The machine puts out the trades it is given. -/
lemma run_snd (a : ClearingHouseActor) (trades : List Trade) :
    (Machine.run (step arith) a trades).2 = trades := by
  induction trades generalizing a with
  | nil => rfl
  | cons t trades ih => rw [Machine.run_cons, ih]; rfl

theorem accounted_run (arith : Arithmetic) (pairs : List (ℕ × ℕ)) (trades : List Trade) :
    (run arith pairs trades).1.Accounted arith (mapped pairs).sessionToMember trades := by
  have halong : Machine.Along (step arith) (fun _ _ => True) (mapped pairs) trades :=
    Machine.along_of_forall (by simp)
  have h := Machine.run_induction
    (Q := fun a hist => a.Accounted arith (mapped pairs).sessionToMember hist)
    (fun a hist t _ h => h.onEvent t) halong (accounted_mapped arith pairs)
  rwa [List.nil_append, run_snd] at h

/-! ### The accounts of the market -/

/-- Both sessions of a trade are mapped to members of the clearing house. -/
def BothMapped (sessions : Finmap fun _ : ℕ => ℕ) (t : Trade) : Prop :=
  (∃ buyer ∈ memberIds, sessions.lookup t.buySessionId = some buyer) ∧
    ∃ seller ∈ memberIds, sessions.lookup t.sellSessionId = some seller

instance (sessions : Finmap fun _ : ℕ => ℕ) (t : Trade) : Decidable (BothMapped sessions t) :=
  inferInstanceAs (Decidable (_ ∧ _))

/-- What each member bought less what it sold in a symbol is in the range of `int64_t`. -/
def FitsInt64 (sessions : Finmap fun _ : ℕ => ℕ) (trades : List Trade) : Prop :=
  ∀ id s, -2 ^ 63 ≤ netQty sessions id s trades ∧ netQty sessions id s trades < 2 ^ 63

/-- The clearing house has moved what its members traded, and nothing else. -/
structure Cleared (sessions : Finmap fun _ : ℕ => ℕ) (a : ClearingHouseActor)
    (trades : List Trade) : Prop where
  position : ∀ m ∈ a.members, ∀ s, m.position s
    = balance (boughtQty sessions m.memberId s) trades
      - balance (soldQty sessions m.memberId s) trades
  zeroSum : ∀ s, (a.members.map fun m => m.position s).sum = 0
  capital : ∀ m ∈ a.members, m.capital = initialCapital
    - balance (boughtValue sessions m.memberId) trades
    + balance (soldValue sessions m.memberId) trades
  totalCapital : (a.members.map MemberState.capital).sum
    = (initMembers.map MemberState.capital).sum
  tradeCount : (a.members.map MemberState.tradeCount).sum = 2 * trades.length

/-- What a member can read off the clearing house, average costs aside. -/
def account (m : MemberState) : ℕ × (ℕ → ℤ) × ℚ × ℕ :=
  (m.memberId, m.position, m.capital, m.tradeCount)

lemma memberIds_nodup : memberIds.Nodup :=
  List.nodup_range.map fun _ _ h => Nat.succ.inj h

/-- Each trade is posted to one member on either side. -/
lemma sum_posted {M : Type*} [AddCommMonoid M] {k : ℕ} (hk : k ∈ memberIds) (v : M) :
    (memberIds.map fun id => if k = id then v else 0).sum = v :=
  Tally.sum_key memberIds_nodup hk v

section

variable {sessions : Finmap fun _ : ℕ => ℕ} {trades : List Trade}

/-- What is posted to the members on one side of the trades. -/
lemma sum_side {M : Type*} [AddCommMonoid M] {session : Trade → ℕ}
    (hmapped : ∀ t ∈ trades, ∃ id ∈ memberIds, sessions.lookup (session t) = some id)
    (v : Trade → M) : (memberIds.map fun id => balance (fun t =>
      if sessions.lookup (session t) = some id then v t else 0) trades).sum = balance v trades := by
  apply Tally.sum_balance
  intro t ht
  obtain ⟨id, hid, hlookup⟩ := hmapped t ht
  simp only [hlookup, Option.some.injEq]
  exact sum_posted hid (v t)

variable (hmapped : ∀ t ∈ trades, BothMapped sessions t)

include hmapped

lemma sum_boughtQty (s : ℕ) :
    (memberIds.map fun id => balance (boughtQty sessions id s) trades).sum
      = balance (fun t => if t.symbolIdx = s then (t.quantity : ℤ) else 0) trades := by
  have hqty : ∀ id, boughtQty sessions id s = fun t =>
      if sessions.lookup t.buySessionId = some id then
        if t.symbolIdx = s then (t.quantity : ℤ) else 0 else 0 :=
    fun id => funext fun t => ite_and ..
  simp only [hqty]
  exact sum_side (fun t ht => (hmapped t ht).1) _

lemma sum_soldQty (s : ℕ) :
    (memberIds.map fun id => balance (soldQty sessions id s) trades).sum
      = balance (fun t => if t.symbolIdx = s then (t.quantity : ℤ) else 0) trades := by
  have hqty : ∀ id, soldQty sessions id s = fun t =>
      if sessions.lookup t.sellSessionId = some id then
        if t.symbolIdx = s then (t.quantity : ℤ) else 0 else 0 :=
    fun id => funext fun t => ite_and ..
  simp only [hqty]
  exact sum_side (fun t ht => (hmapped t ht).2) _

lemma sum_netQty (s : ℕ) : (memberIds.map fun id => netQty sessions id s trades).sum = 0 := by
  have hsum : (memberIds.map fun id => netQty sessions id s trades).sum
      + (memberIds.map fun id => balance (soldQty sessions id s) trades).sum
      = (memberIds.map fun id => balance (boughtQty sessions id s) trades).sum := by
    rw [← List.sum_map_add]
    simp only [netQty, sub_add_cancel]
  rw [sum_soldQty hmapped, sum_boughtQty hmapped] at hsum
  simpa using hsum

lemma sum_values : (memberIds.map fun id => balance (boughtValue sessions id) trades).sum
    = (memberIds.map fun id => balance (soldValue sessions id) trades).sum := by
  have hbought := sum_side (fun t ht => (hmapped t ht).1) fun t => toDouble t.price * t.quantity
  have hsold := sum_side (fun t ht => (hmapped t ht).2) fun t => toDouble t.price * t.quantity
  exact hbought.trans hsold.symm

lemma sum_sidesTaken :
    (memberIds.map fun id => balance (sidesTaken sessions id) trades).sum = 2 * trades.length := by
  rw [Tally.sum_balance fun _ => 2]
  · simp [balance, mul_comm]
  · intro t ht
    obtain ⟨⟨buyer, hbuyer, hbuy⟩, seller, hseller, hsell⟩ := hmapped t ht
    simp only [sidesTaken, hbuy, hsell, Option.some.injEq, List.sum_map_add]
    rw [sum_posted hbuyer, sum_posted hseller]

end

namespace Accounted

variable {arith : Arithmetic} {a : ClearingHouseActor} {sessions : Finmap fun _ : ℕ => ℕ}
  {trades : List Trade}

lemma cleared (h : a.Accounted arith sessions trades)
    (hmapped : ∀ t ∈ trades, BothMapped sessions t) (hfits : FitsInt64 sessions trades) :
    a.Cleared sessions trades := by
  have hposition : ∀ m ∈ a.members, ∀ s, m.position s = netQty sessions m.memberId s trades := by
    intro m hm s
    rw [(h.members m hm).position, arith.reduce_of_fits (hfits _ _).1 (hfits _ _).2]
  have hcapital : ∀ m ∈ a.members, m.capital = initialCapital
      - balance (boughtValue sessions m.memberId) trades
      + balance (soldValue sessions m.memberId) trades := by
    intro m hm
    rw [(h.members m hm).capital, (h.members m hm).initialCapital]
  refine ⟨hposition, fun s => ?_, hcapital, ?_, ?_⟩
  · rw [h.map_members (fun id => netQty sessions id s trades) fun m hm => hposition m hm s,
      sum_netQty hmapped]
  · have hstart : initMembers.map MemberState.capital
        = memberIds.map fun _ => initialCapital := by
      rw [initMembers, memberIds, List.map_map, List.map_map]
      rfl
    have hsum : (a.members.map MemberState.capital).sum
        + (memberIds.map fun id => balance (boughtValue sessions id) trades).sum
        = (memberIds.map fun _ => initialCapital).sum
          + (memberIds.map fun id => balance (soldValue sessions id) trades).sum := by
      rw [h.map_members (fun id => initialCapital - balance (boughtValue sessions id) trades
        + balance (soldValue sessions id) trades) hcapital, ← List.sum_map_add,
        ← List.sum_map_add]
      congr 1
      exact List.map_congr_left fun id _ => by ring
    rw [sum_values hmapped] at hsum
    rw [hstart]
    exact add_right_cancel hsum
  · rw [h.map_members (fun id => balance (sidesTaken sessions id) trades)
      fun m hm => (h.members m hm).tradeCount, sum_sidesTaken hmapped]

/-- Two tallies of the same trades agree. -/
lemma map_account {a' : ClearingHouseActor} {trades' : List Trade}
    (h : a.Accounted arith sessions trades) (h' : a'.Accounted arith sessions trades')
    (hperm : trades'.Perm trades) : a'.members.map account = a.members.map account := by
  have hnet : ∀ id s, netQty sessions id s trades' = netQty sessions id s trades := by
    intro id s
    rw [netQty, netQty, Tally.balance_perm hperm, Tally.balance_perm hperm]
  have haccount : ∀ (a : ClearingHouseActor) (trades : List Trade),
      a.Accounted arith sessions trades → a.members.map account = memberIds.map fun id =>
        (id, (fun s => arith.reduce (netQty sessions id s trades)),
          initialCapital - balance (boughtValue sessions id) trades
            + balance (soldValue sessions id) trades,
          balance (sidesTaken sessions id) trades) := by
    intro a trades h
    apply h.map_members
    intro m hm
    rw [account, (h.members m hm).capital, (h.members m hm).initialCapital,
      (h.members m hm).tradeCount, funext (h.members m hm).position]
  rw [haccount a trades h, haccount a' trades' h']
  apply List.map_congr_left
  intro id _
  simp only [hnet, Tally.balance_perm hperm]

end Accounted

/-- Whatever the trades between members, and in whatever order they arrive, the clearing house
moves what was traded and nothing else. -/
theorem run_cleared (pairs : List (ℕ × ℕ)) (trades : List Trade)
    (hmapped : ∀ t ∈ trades, BothMapped (mapped pairs).sessionToMember t)
    (hfits : FitsInt64 (mapped pairs).sessionToMember trades) :
    (run .int64 pairs trades).1.Cleared (mapped pairs).sessionToMember trades ∧
      ∀ trades', trades'.Perm trades → (run .int64 pairs trades').1.members.map account
        = (run .int64 pairs trades).1.members.map account := by
  have h := accounted_run .int64 pairs trades
  refine ⟨h.cleared hmapped hfits, fun trades' hperm => ?_⟩
  exact h.map_account (accounted_run .int64 pairs trades') hperm

/-- A trade between two sessions. -/
def tradeBetween (buySessionId sellSessionId symbolIdx : ℕ) (price : ℤ) (quantity : ℕ) : Trade where
  tradeId := 1
  symbolIdx := symbolIdx
  price := price
  quantity := quantity
  buyOrderId := 1
  sellOrderId := 2
  buyClOrdId := 1
  sellClOrdId := 2
  buySessionId := buySessionId
  sellSessionId := sellSessionId

/-- Member 1 buys from member 2, and then trades with itself. -/
theorem run_cleared_pair :
    let pairs := [(100, 1), (101, 2)]
    let trades := [tradeBetween 100 101 1 5 10, tradeBetween 100 100 1 6 4]
    (run .int64 pairs trades).1.Cleared (mapped pairs).sessionToMember trades ∧
      ∀ trades', trades'.Perm trades → (run .int64 pairs trades').1.members.map account
        = (run .int64 pairs trades).1.members.map account :=
  run_cleared _ _ (by decide) fun id s => by
    simp only [netQty, balance, boughtQty, soldQty, tradeBetween, List.map_cons, List.map_nil,
      List.sum_cons, List.sum_nil]
    split_ifs <;> omega

end ClearingHouseActor

end EuNEx
