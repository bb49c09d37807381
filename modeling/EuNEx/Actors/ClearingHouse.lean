import EuNEx.Common.Types
import EuNEx.Lib.Machine
import EuNEx.Lib.Tally
import Mathlib.Data.Finmap
import Mathlib.Data.List.Sort
import Mathlib.Data.Rat.Floor

/-!
# The clearing house

`actors/ClearingHouseActor.cpp`: trades are attributed to the members of their sessions, and move
the capital and the holdings of the members. Amounts of money (`double`) are rational numbers, so
capital and costs are exact. Quantities of holdings follow an `Arithmetic`: that of `int64_t`, or
the exact one.
-/

namespace EuNEx

/-- `PRICE_SCALE`. -/
def priceScale : ℤ := 100000000

/-- `toDouble`. -/
def toDouble (p : ℤ) : ℚ := p / priceScale

/-- `toFixedPrice`: the cast drops the fraction. -/
def toFixedPrice (p : ℚ) : ℤ := if 0 ≤ p then ⌊p * priceScale⌋ else ⌈p * priceScale⌉

/-- The arithmetic of the quantities of holdings. -/
inductive Arithmetic where
  | exact
  | int64
deriving DecidableEq, Repr

/-- The value that is stored for a result: `int64_t` keeps it modulo `2 ^ 64`. -/
def Arithmetic.reduce : Arithmetic → ℤ → ℤ
  | .exact, n => n
  | .int64, n => n.bmod (2 ^ 64)

structure MemberHolding where
  symbolIdx : ℕ
  quantity : ℤ
  avgCost : ℤ
deriving DecidableEq, Repr

structure MemberState where
  memberId : ℕ
  name : String
  capital : ℚ
  initialCapital : ℚ
  tradeCount : ℕ
  distinctSymbols : ℕ
  holdings : Finmap fun _ : ℕ => MemberHolding

/-- The map `members_` from member ids is the list of its values. -/
structure ClearingHouseActor where
  sessionToMember : Finmap fun _ : ℕ => ℕ
  members : List MemberState

structure LeaderboardEntry where
  memberId : ℕ
  name : String
  capital : ℚ
  pnl : ℚ
  tradeCount : ℕ
  holdingCount : ℕ
deriving DecidableEq, Repr

/-! ### The actor -/

namespace MemberState

variable (arith : Arithmetic) (m : MemberState)

/-- `processTradeSide`, once the member is found. -/
def processTradeSide (symbolIdx : ℕ) (price : ℤ) (qty : ℕ) (isBuy : Bool) : MemberState :=
  let cost := toDouble price * qty
  let m := { m with
    tradeCount := m.tradeCount + 1
    capital := if isBuy then m.capital - cost else m.capital + cost }
  match m.holdings.lookup symbolIdx with
  | none =>
    let holdings := m.holdings.insert symbolIdx
      { symbolIdx := symbolIdx
        quantity := if isBuy then arith.reduce qty else arith.reduce (-qty)
        avgCost := price }
    { m with holdings := holdings, distinctSymbols := holdings.keys.card }
  | some h =>
    if isBuy then
      let prevCost := toDouble h.avgCost * |h.quantity|
      let quantity := arith.reduce (h.quantity + qty)
      { m with holdings := m.holdings.insert symbolIdx { h with
          quantity := quantity
          avgCost := if quantity ≠ 0 then toFixedPrice ((prevCost + cost) / |quantity|)
            else h.avgCost } }
    else
      let quantity := arith.reduce (h.quantity - qty)
      if quantity = 0 then
        let holdings := m.holdings.erase symbolIdx
        { m with holdings := holdings, distinctSymbols := holdings.keys.card }
      else { m with holdings := m.holdings.insert symbolIdx { h with quantity := quantity } }

/-- The row of a member in `getLeaderboard`. -/
def leaderboardEntry : LeaderboardEntry where
  memberId := m.memberId
  name := m.name
  capital := m.capital
  pnl := m.capital - m.initialCapital
  tradeCount := m.tradeCount
  holdingCount := m.holdings.keys.card

end MemberState

namespace ClearingHouseActor

/-- `NUM_MEMBERS`. -/
def numMembers : ℕ := 10

/-- `INITIAL_CAPITAL`. -/
def initialCapital : ℚ := 100000

def initMembers : List MemberState :=
  (List.range numMembers).map fun i =>
    { memberId := i + 1
      name := "MBR" ++ (if i + 1 < 10 then "0" else "") ++ toString (i + 1)
      capital := initialCapital
      initialCapital := initialCapital
      tradeCount := 0
      distinctSymbols := 0
      holdings := ∅ }

/-- `ClearingHouseActor()`. -/
def new : ClearingHouseActor := ⟨∅, initMembers⟩

variable (arith : Arithmetic) (a : ClearingHouseActor)

def mapSession (sessionId memberId : ℕ) : ClearingHouseActor :=
  { a with sessionToMember := a.sessionToMember.insert sessionId memberId }

/-- An actor that is ready for trades: `mapSession` has been called for these pairs. -/
def mapped (sessions : List (ℕ × ℕ)) : ClearingHouseActor :=
  sessions.foldl (fun a pair => a.mapSession pair.1 pair.2) new

def processTradeSide (memberId symbolIdx : ℕ) (price : ℤ) (qty : ℕ) (isBuy : Bool) :
    ClearingHouseActor :=
  { a with members := a.members.map fun m =>
      if m.memberId = memberId then m.processTradeSide arith symbolIdx price qty isBuy else m }

def onEvent (t : Trade) : ClearingHouseActor :=
  let a := match a.sessionToMember.lookup t.buySessionId with
    | none => a
    | some memberId => a.processTradeSide arith memberId t.symbolIdx t.price t.quantity true
  match a.sessionToMember.lookup t.sellSessionId with
  | none => a
  | some memberId => a.processTradeSide arith memberId t.symbolIdx t.price t.quantity false

/-- `std::sort` leaves open how entries of equal capital are ordered. -/
def getLeaderboard : List LeaderboardEntry :=
  (a.members.map MemberState.leaderboardEntry).insertionSort fun e e' => e'.capital ≤ e.capital

/-- Handling a `TradeEvent`, as a machine that puts out the trades it has handled. -/
def step (t : Trade) : ClearingHouseActor × List Trade := (a.onEvent arith t, [t])

/-- The actor after a sequence of trades. -/
abbrev run (sessions : List (ℕ × ℕ)) (trades : List Trade) : ClearingHouseActor × List Trade :=
  Machine.run (step arith) (mapped sessions) trades

end ClearingHouseActor

end EuNEx
