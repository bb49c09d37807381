import EuNEx.Lib.Bytes
import Mathlib.Logic.Function.Basic

/-!
# The recovery proxy

`recovery/RecoveryProxy.hpp`: causes, which are numbered and appended to a store of fragments, and
effects, which depend on the role. Any number of proxies share one store. What an operation does is
left open: it may call back into any of the proxies, look at what it likes, and throw.
-/

namespace EuNEx

open Bytes (Buffer)

structure Fragment where
  sequenceNumber : UInt64 := 0
  originId : UInt16 := 0
  originKey : UInt32 := 0
  chainId : UInt64 := 0
  persistenceId : UInt8 := 0
  nextCount : Int32 := 0
  payload : Buffer 4096 := .zero 4096
  payloadSize : UInt64 := 0
deriving DecidableEq

/-- The bytes of a payload type that fits into a fragment. -/
abbrev Payload := { bytes : List UInt8 // bytes.length ≤ 4096 }

/-- The payload of an event without data. -/
def Payload.empty : Payload := ⟨[], Nat.zero_le _⟩

structure RecoveryProxy where
  originId : UInt16
  originKey : UInt32
  isMaster : Bool
  sequenceNumber : UInt64 := 0
deriving DecidableEq, Repr

/-- `FragmentStore`. -/
abbrev FragmentStore := List Fragment

/-- The proxies and the store they share. The calls of `cause` are counted, which tells them
apart. -/
structure Recovery (ι : Type) where
  proxies : ι → RecoveryProxy
  store : FragmentStore := []
  causes : ℕ := 0

/-- A proxy appends the fragment of a cause; an effect executes, inside the operations of some
causes. -/
inductive RecoveryEvent (ι : Type) where
  | appended (who : ι) (cause : ℕ) (frag : Fragment)
  | executed (inside : List ℕ)
deriving DecidableEq

/-- What runs as the operation of a cause, or outside of all: it returns or throws, looks at the
proxies and the store, or calls a proxy and goes on, with `none` and `false` where the call
throws. -/
inductive CauseOp (ι : Type) where
  | done (nextCount : Int32)
  | throw
  | look (k : (ι → RecoveryProxy) → FragmentStore → CauseOp ι)
  | setMaster (who : ι) (v : Bool) (k : CauseOp ι)
  | cause (who : ι) (persistenceId : UInt8) (payload : Payload)
      (op : (chainId sequenceNumber : UInt64) → CauseOp ι) (k : Option UInt64 → CauseOp ι)
  | effect (who : ι) (fn : CauseOp ι) (k : Bool → CauseOp ι)
  | recoveryEffect (who : ι) (fn : CauseOp ι) (k : Bool → CauseOp ι)

/-- How a run ends: `none` if it throws. -/
structure RecoveryOutcome (ι : Type) where
  state : Recovery ι
  events : List (RecoveryEvent ι) := []
  result : Option Int32

namespace RecoveryProxy

variable (proxy : RecoveryProxy)

/-- `++sequenceNumber_`. -/
def next : RecoveryProxy := { proxy with sequenceNumber := proxy.sequenceNumber + 1 }

/-- The fragment of a cause before its operation. -/
def fragment (persistenceId : UInt8) (payload : Payload) : Fragment where
  sequenceNumber := proxy.next.sequenceNumber
  originId := proxy.originId
  originKey := proxy.originKey
  chainId := proxy.next.sequenceNumber
  persistenceId := persistenceId
  payload := .padded payload.1 payload.2
  payloadSize := .ofNat payload.1.length

end RecoveryProxy

namespace Recovery

variable {ι : Type}

/-- The proxies before a run. -/
def start (originId : UInt16) (originKey : UInt32) (isMaster : ι → Bool) : Recovery ι where
  proxies who := { originId, originKey, isMaster := isMaster who }

variable (r : Recovery ι)

/-- `store_->append`. -/
def append (frag : Fragment) : Recovery ι := { r with store := r.store ++ [frag] }

variable [DecidableEq ι]

def setMaster (who : ι) (v : Bool) : Recovery ι :=
  { r with proxies := Function.update r.proxies who { r.proxies who with isMaster := v } }

/-- The beginning of `cause`. -/
def number (who : ι) : Recovery ι where
  proxies := Function.update r.proxies who (r.proxies who).next
  store := r.store
  causes := r.causes + 1

variable {r} {who who' : ι}

lemma sequenceNumber_setMaster (v : Bool) :
    ((r.setMaster who v).proxies who').sequenceNumber = (r.proxies who').sequenceNumber := by
  rcases eq_or_ne who' who with rfl | hne
  · simp [setMaster]
  · exact congrArg RecoveryProxy.sequenceNumber (Function.update_of_ne hne ..)

variable (r)

lemma proxies_number : (r.number who).proxies who = (r.proxies who).next :=
  Function.update_self ..

lemma proxies_number_of_ne (hne : who' ≠ who) : (r.number who).proxies who' = r.proxies who' :=
  Function.update_of_ne hne ..

end Recovery

namespace RecoveryOutcome

variable {ι : Type}

/-- The end of `cause`, after its operation: what is appended, and what is returned. -/
def append (inner : RecoveryOutcome ι) (who : ι) (cause : ℕ) (frag : Fragment) :
    RecoveryOutcome ι × Option UInt64 :=
  match inner.result with
  | none => (inner, none)
  | some nextCount =>
    let frag := { frag with nextCount }
    ({ inner with
        state := inner.state.append frag
        events := inner.events ++ [.appended who cause frag] },
      some frag.sequenceNumber)

end RecoveryOutcome

namespace CauseOp

variable {ι : Type} [DecidableEq ι]

/-- Runs an operation inside the operations of the causes `inside`. -/
def run : CauseOp ι → (inside : List ℕ) → Recovery ι → RecoveryOutcome ι
  | done nextCount, _, r => { state := r, result := some nextCount }
  | throw, _, r => { state := r, result := none }
  | look k, inside, r => (k r.proxies r.store).run inside r
  | setMaster who v k, inside, r => k.run inside (r.setMaster who v)
  | cause who persistenceId payload op k, inside, r =>
    let frag := (r.proxies who).fragment persistenceId payload
    let inner := (op frag.chainId frag.sequenceNumber).run (r.causes :: inside) (r.number who)
    let (inner, returned) := inner.append who r.causes frag
    let rest := (k returned).run inside inner.state
    { rest with events := inner.events ++ rest.events }
  | effect who fn k, inside, r =>
    if (r.proxies who).isMaster then
      let inner := fn.run inside r
      let rest := (k inner.result.isSome).run inside inner.state
      { rest with events := .executed inside :: inner.events ++ rest.events }
    else (k true).run inside r
  | recoveryEffect who fn k, inside, r =>
    if !(r.proxies who).isMaster then
      let inner := fn.run inside r
      let rest := (k inner.result.isSome).run inside inner.state
      { rest with events := inner.events ++ rest.events }
    else (k true).run inside r

end CauseOp

end EuNEx
