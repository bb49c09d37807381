import EuNEx.Lib.Machine
import Mathlib.Data.Finmap
import Mathlib.Data.List.Dedup

/-!
# The aggregator of fragment chains

`iaca/Fragment.hpp`, `iaca/IacaAggregator.hpp` and `iaca/IacaAggregator.cpp`. The payload of a
fragment is left open. A handler does not call back into the aggregator, and what `process` does
with a chain is an event.
-/

namespace EuNEx

structure Origin where
  originId : UInt16
  key : UInt32
  sequenceNumber : UInt64
deriving DecidableEq, Repr

/-- `Origin::null()`. -/
def Origin.null : Origin := ⟨0xFFFF, 0, 0⟩

inductive CauseId where
  | newOrderBuy
  | newOrderSell
  | cancelOrder
  | modifyOrder
  | ackData
  | tradeData
  | limitUpdate
  | impResult
  | marketStatus
deriving DecidableEq, Repr

structure IacaFragment (α : Type*) where
  chainId : UInt64
  origin : Origin
  previousOrigin : Origin
  nextCount : Int32
  causeId : CauseId
  payload : α
deriving DecidableEq, Repr

/-- A chain that is being assembled. -/
structure FragmentChain (α : Type*) where
  chainId : UInt64 := 0
  fragments : List (IacaFragment α) := []
  complete : Bool := false
deriving DecidableEq, Repr

/-- `FragmentHandler`, as its `canProcess`. -/
abbrev FragmentHandler (α : Type*) := FragmentChain α → Bool

/-- `NewOrderHandler::canProcess`. -/
def NewOrderHandler {α : Type*} : FragmentHandler α := fun chain =>
  chain.fragments.any fun f => f.causeId = .newOrderBuy || f.causeId = .newOrderSell

/-- A chain is completed, and a handler, given by its index, processes a chain. -/
inductive IacaEvent (α : Type*) where
  | completed (chain : FragmentChain α)
  | processed (handler : ℕ) (chain : FragmentChain α)
deriving DecidableEq, Repr

structure IacaAggregator (α : Type*) where
  chains : Finmap fun _ : UInt64 => FragmentChain α := ∅
  handlers : List (FragmentHandler α) := []
  completedCount : ℕ := 0

variable {α : Type*}

/-- The children of a fragment. -/
def childCount (fragments : List (IacaFragment α)) (frag : IacaFragment α) : ℕ :=
  fragments.countP fun other => other.previousOrigin = frag.origin

/-- `checkComplete`. -/
def FragmentChain.checkComplete (chain : FragmentChain α) : Bool :=
  chain.fragments.all (fun frag => (childCount chain.fragments frag : ℤ) = frag.nextCount.toInt) &&
    !chain.fragments.isEmpty

namespace IacaAggregator

variable (a : IacaAggregator α)

/-- The loop over the handlers. -/
def process (chain : FragmentChain α) : List (IacaEvent α) :=
  a.handlers.zipIdx.filterMap fun handler =>
    if handler.1 chain then some (.processed handler.2 chain) else none

/-- `tryComplete`. -/
def tryComplete (chainId : UInt64) : IacaAggregator α × List (IacaEvent α) :=
  match a.chains.lookup chainId with
  | none => (a, [])
  | some chain =>
    if chain.checkComplete then
      let chain := { chain with complete := true }
      ({ a with
          completedCount := a.completedCount + 1
          chains := a.chains.erase chainId }, .completed chain :: a.process chain)
    else (a, [])

/-- `addFragment`. -/
def addFragment (fragment : IacaFragment α) : IacaAggregator α × List (IacaEvent α) :=
  let chain := (a.chains.lookup fragment.chainId).getD {}
  tryComplete { a with
    chains := a.chains.insert fragment.chainId { chain with
      chainId := fragment.chainId
      fragments := chain.fragments ++ [fragment] } } fragment.chainId

def pendingChainCount : ℕ := a.chains.keys.card

def completedChainCount : ℕ := a.completedCount

/-- An aggregator to which fragments are passed. -/
abbrev run (arrivals : List (IacaFragment α)) : IacaAggregator α × List (IacaEvent α) :=
  Machine.run addFragment a arrivals

end IacaAggregator

/-! ### Trees and orders of arrival -/

/-- The fragments of a chain, in order of arrival. -/
def fragmentsOf (arrivals : List (IacaFragment α)) (chainId : UInt64) : List (IacaFragment α) :=
  arrivals.filter fun f => f.chainId = chainId

/-- The fragments of a chain are those of a tree. -/
structure IsTree (fragments : List (IacaFragment α)) : Prop where
  nodup : (fragments.map IacaFragment.origin).Nodup
  root : ∃ r ∈ fragments, r.previousOrigin ∉ fragments.map IacaFragment.origin ∧
    ∀ f ∈ fragments, f.previousOrigin ∉ fragments.map IacaFragment.origin → f = r
  acyclic : ∃ depth : Origin → ℕ, ∀ f ∈ fragments, ∀ g ∈ fragments,
    f.previousOrigin = g.origin → depth g.origin < depth f.origin
  nextCount : ∀ f ∈ fragments, f.nextCount.toInt = childCount fragments f

/-- A fragment arrives after its parent. -/
def ParentFirst (fragments : List (IacaFragment α)) : Prop :=
  ∀ pre f post, fragments = pre ++ f :: post →
    ∀ g ∈ fragments, g.origin = f.previousOrigin → g ∈ pre

/-- Whenever some but not all fragments have arrived, a child of one of them has not. -/
def LeavesChild (fragments : List (IacaFragment α)) : Prop :=
  ∀ pre post, fragments = pre ++ post → pre ≠ [] → post ≠ [] →
    ∃ f ∈ pre, ∃ g ∈ post, g.previousOrigin = f.origin

/-- What is to happen when a chain is complete. -/
def IacaAggregator.completion (a : IacaAggregator α) (chainId : UInt64)
    (fragments : List (IacaFragment α)) : List (IacaEvent α) :=
  .completed ⟨chainId, fragments, true⟩ :: a.process ⟨chainId, fragments, true⟩

/-- Each chain is completed when its last fragment arrives and at no other time, the handlers that
accept it are called once, with all of its fragments, and nothing stays behind. -/
structure Completes (a : IacaAggregator α) (arrivals : List (IacaFragment α)) : Prop where
  steps : ∀ pre f post, arrivals = pre ++ f :: post → ((a.run pre).1.addFragment f).2
    = if f.chainId ∈ post.map IacaFragment.chainId then []
      else a.completion f.chainId (fragmentsOf (pre ++ [f]) f.chainId)
  events : (a.run arrivals).2 = (arrivals.map IacaFragment.chainId).dedup.flatMap fun chainId =>
    a.completion chainId (fragmentsOf arrivals chainId)
  pending : (a.run arrivals).1.pendingChainCount = 0
  completed : (a.run arrivals).1.completedChainCount
    = (arrivals.map IacaFragment.chainId).dedup.length

end EuNEx
