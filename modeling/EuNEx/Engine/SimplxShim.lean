import EuNEx.Lib.Machine
import Mathlib.Logic.Function.Basic

/-!
# The life of an engine

`engine/SimplxShim.hpp`: from the constructor of an `Engine` to its destructor, with the pipes of
its actors. A push is two steps, since it decides where the event goes before it puts it there, and
its thread may be held up in between. A turn of a core's thread is three: it tests the flag and the
clock, takes what is in the mailbox, and runs it task by task. A handler may push what it likes, and
so may a callback, so pushes come at any time; but a pipe is used by one thread at a time. A wait on
a mailbox may end at any time, which is all that `shutdown_` changes.
-/

namespace EuNEx.Simplx

variable {π κ τ : Type*}

/-- A pipe between two registered actors: their cores, and the event types that the destination has
a handler for. -/
structure Pipe (κ τ : Type*) where
  source : κ
  dest : κ
  handles : τ → Bool

/-- An event on its way: the pipe, the number of the push on that pipe, and its type. -/
structure Task (π τ : Type*) where
  pipe : π
  number : ℕ
  type : τ
deriving DecidableEq, Repr

/-- Where the thread of a core is in its loop. -/
inductive Thread (π τ : Type*) where
  | test
  | wait
  | batch (tasks : List (Task π τ))
deriving DecidableEq, Repr

/-- Where `runFor` is, if it has been called. -/
inductive Main where
  | idle
  | sleeping
  | joining
deriving DecidableEq, Repr

/-- An engine, with the flag of the registry. `late` says that the deadline has passed; `drain` has
the mailboxes that a call of `drain` has still to empty, and its batch; a push in progress has
decided whether to enqueue the event. -/
structure Engine (π κ τ : Type*) where
  threadedMode : Bool := false
  running : Bool := true
  late : Bool := false
  mailboxes : κ → List (Task π τ) := fun _ => []
  threads : κ → Option (Thread π τ) := fun _ => none
  main : Main := .idle
  drain : Option (List κ × List (Task π τ)) := none
  pushing : π → Option (Task π τ × Bool) := fun _ => none
  pushes : π → ℕ := fun _ => 0
  destroyed : Bool := false

/-- What can happen next: a push begins or ends, the thread of a core takes a step, the deadline
passes, `runFor` is called, wakes up or joins its threads, and so on. -/
inductive Action (π κ τ : Type*) where
  | push (p : π) (type : τ)
  | endPush (p : π)
  | core (c : κ)
  | deadline
  | runFor
  | wake
  | join
  | stop
  | drain
  | drainStep
  | destroy

/-- What there is to see. An event is deleted unhandled if the destination has no handler for it. -/
inductive LifeEvent (π : Type*) where
  | pushed (p : π) (number : ℕ)
  | handled (p : π) (number : ℕ)
  | deleted (p : π) (number : ℕ)
  | destroyed
deriving DecidableEq, Repr

section

variable [DecidableEq π] [DecidableEq κ] (cores : List κ) (pipe : π → Pipe κ τ)
  (e : Engine π κ τ)

/-- `deliverEvent`. -/
def deliver (t : Task π τ) : List (LifeEvent π) :=
  if (pipe t.pipe).handles t.type then [.handled t.pipe t.number]
  else [.deleted t.pipe t.number]

namespace Engine

/-- `Pipe::push`, up to where the event goes. `cores` have mailboxes. -/
def push (p : π) (type : τ) : Engine π κ τ × List (LifeEvent π) :=
  match e.pushing p with
  | some _ => (e, [])
  | none =>
    let queued := e.threadedMode && (pipe p).dest ≠ (pipe p).source && (pipe p).dest ∈ cores
    ({ e with
        pushing := Function.update e.pushing p (some (⟨p, e.pushes p, type⟩, queued))
        pushes := Function.update e.pushes p (e.pushes p + 1) },
      [.pushed p (e.pushes p)])

/-- The rest of `Pipe::push`: `enqueue`, or the delivery. -/
def endPush (p : π) : Engine π κ τ × List (LifeEvent π) :=
  match e.pushing p with
  | none => (e, [])
  | some (t, queued) =>
    let e := { e with pushing := Function.update e.pushing p none }
    let mailbox := e.mailboxes (pipe p).dest
    if queued then
      ({ e with mailboxes := Function.update e.mailboxes (pipe p).dest (mailbox ++ [t]) }, [])
    else (e, deliver pipe t)

/-- A step of the thread of a core. -/
def stepCore (c : κ) : Engine π κ τ × List (LifeEvent π) :=
  match e.threads c with
  | none => (e, [])
  | some .test =>
    let thread := if e.running && !e.late then some .wait else none
    ({ e with threads := Function.update e.threads c thread }, [])
  | some .wait =>
    ({ e with
        mailboxes := Function.update e.mailboxes c []
        threads := Function.update e.threads c (some (.batch (e.mailboxes c))) }, [])
  | some (.batch []) => ({ e with threads := Function.update e.threads c (some .test) }, [])
  | some (.batch (t :: tasks)) =>
    ({ e with threads := Function.update e.threads c (some (.batch tasks)) }, deliver pipe t)

/-- `runFor`, up to the sleep. -/
def runFor : Engine π κ τ :=
  if e.main = .idle then
    { e with
      threadedMode := true
      late := false
      threads := fun c => if c ∈ cores then some .test else none
      main := .sleeping }
  else e

/-- `stop`. -/
def stop : Engine π κ τ := { e with running := false }

/-- `runFor` wakes up, and calls `stop`. -/
def wake : Engine π κ τ :=
  if e.main = .sleeping then { e.stop with main := .joining } else e

/-- `runFor` returns, once it has joined its threads. -/
def join : Engine π κ τ :=
  if e.main = .joining ∧ ∀ c ∈ cores, (e.threads c).isNone then
    { e with threadedMode := false, main := .idle }
  else e

/-- A step of `drain`, which takes the mailboxes one after the other. -/
def stepDrain : Engine π κ τ × List (LifeEvent π) :=
  match e.drain with
  | none => (e, [])
  | some ([], []) => ({ e with drain := none }, [])
  | some (c :: cs, []) =>
    ({ e with
        mailboxes := Function.update e.mailboxes c []
        drain := some (cs, e.mailboxes c) }, [])
  | some (cs, t :: tasks) => ({ e with drain := some (cs, tasks) }, deliver pipe t)

/-- `~Engine`, when none of its methods is running. -/
def destroy : Engine π κ τ × List (LifeEvent π) :=
  if e.main = .idle ∧ e.drain.isNone then
    ({ e with running := false, threadedMode := false, destroyed := true }, [.destroyed])
  else (e, [])

/-- A step of a live engine. -/
def act (action : Action π κ τ) : Engine π κ τ × List (LifeEvent π) :=
  match action with
  | .push p type => e.push cores pipe p type
  | .endPush p => e.endPush pipe p
  | .core c => e.stepCore pipe c
  | .deadline => ({ e with late := true }, [])
  | .runFor => (e.runFor cores, [])
  | .wake => (e.wake, [])
  | .join => (e.join cores, [])
  | .stop => (e.stop, [])
  | .drain => ({ e with drain := e.drain.orElse fun _ => some (cores, []) }, [])
  | .drainStep => e.stepDrain pipe
  | .destroy => e.destroy

/-- One step. -/
def step (e : Engine π κ τ) (action : Action π κ τ) : Engine π κ τ × List (LifeEvent π) :=
  if e.destroyed then (e, []) else e.act cores pipe action

/-! ### What is on its way -/

omit [DecidableEq π] [DecidableEq κ] in
/-- What the thread of a core has taken and not yet run. -/
def batch (c : κ) : List (Task π τ) :=
  match e.threads c with
  | some (.batch tasks) => tasks
  | _ => []

omit [DecidableEq π] [DecidableEq κ] in
/-- What `drain` has taken and not yet run. -/
def drained : List (Task π τ) := (e.drain.map Prod.snd).getD []

end Engine

end

end EuNEx.Simplx
