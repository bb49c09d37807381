import EuNEx.Lib.Machine
import Mathlib.Algebra.GroupWithZero.Nat
import Mathlib.Logic.Function.Basic

/-!
# Stopping the FIX acceptor

`stop`, `acceptLoop` and `clientRecvLoop` of `actors/FIXAcceptorActor.cpp`, as threads that share
`sessionMutex_`. `stop` takes the mutex and then waits for the receive loops, and a receive loop
takes the mutex once more before it ends. A part of a thread that holds the mutex all the way is one
step; whether the handling of a message ends is given with the message, as `main` wires the actors.

The threads run on Linux: `close` does not wake a thread that is in `accept` on the socket, which
goes on listening until then. On an open socket `accept` does not fail, and no send ends the
process.
-/

namespace EuNEx

/-- What the handling of a message comes to: the loop goes on, or ends with a logout, or the handler
never comes back. -/
inductive Handling where
  | goesOn
  | logsOut
  | hangs
deriving DecidableEq, Repr

/-- Where `clientRecvLoop` stands: before it reads its socket from the session, in `recv`, with
a message of what it has received and those behind it, in a handler that does not come back, after
the loop, at its end. -/
inductive RecvLoop where
  | starting
  | receiving
  | handling (msg : Handling) (msgs : List Handling)
  | hung
  | leaving
  | ended
deriving DecidableEq, Repr

/-- Where `acceptLoop` stands: after it has looked at `running_`, in `accept`, with a client that
has no session yet, at its end, or where it has ended the process. -/
inductive AcceptLoop where
  | calling
  | accepting
  | registering
  | ended
  | terminated
deriving DecidableEq, Repr

/-- Where `stop` stands. In `joining` it holds the mutex, and these sessions are still to come. -/
inductive StopCall where
  | notCalled
  | joiningAccept
  | locking
  | joining (sessions : List ℕ)
  | returned
deriving DecidableEq, Repr

/-- The threads of a FIX acceptor, and whether `sessionMutex_` is held between two steps. The
listening socket is open for as long as `running_`. A loop that does not exist counts as ended. -/
structure AcceptorThreads where
  running : Bool := true
  accept : AcceptLoop := .calling
  sessions : List ℕ := []
  loops : ℕ → RecvLoop := fun _ => .ended
  nextSessionId : ℕ := 100
  stop : StopCall := .notCalled
  locked : Bool := false

/-- What a thread does, or what is done to it. -/
inductive ThreadAction where
  /-- `accept` is called, and fails if the socket is closed -/
  | callAccept
  /-- `accept` returns a client -/
  | accepted
  /-- the client gets a session and a receive loop -/
  | register
  /-- a receive loop reads its socket from the session -/
  | begin (sessionId : ℕ)
  /-- `recv` returns, and these messages are complete -/
  | received (sessionId : ℕ) (msgs : List Handling)
  /-- `recv` fails, or the client is gone -/
  | gone (sessionId : ℕ)
  /-- the next message is handled -/
  | handle (sessionId : ℕ)
  /-- the receive loop closes its socket -/
  | leave (sessionId : ℕ)
  /-- `stop` is called -/
  | callStop
  /-- `acceptThread_.join()` returns -/
  | joinAccept
  /-- `stop` takes the mutex -/
  | lock
  /-- the socket of the next session is closed and its receive loop joined; after the last session
  the mutex is released and `stop` returns -/
  | join
deriving DecidableEq, Repr

namespace AcceptorThreads

/-- The start of the acceptor. -/
def start : AcceptorThreads := {}

variable (s : AcceptorThreads)

/-- The receive loop of a session goes on here. -/
def goTo (sessionId : ℕ) (loop : RecvLoop) : AcceptorThreads :=
  { s with loops := Function.update s.loops sessionId loop }

/-- The condition of `while (running_)`. -/
def next : RecvLoop := if s.running then .receiving else .leaving

/-- A client gets the next session id. If that is in use, the session that has it is destroyed with
its thread, which ends the process. -/
def registered : AcceptorThreads :=
  if s.nextSessionId ∈ s.sessions then { s with accept := .terminated }
  else
    { s with
      accept := if s.running then .calling else .ended
      sessions := s.sessions ++ [s.nextSessionId]
      loops := Function.update s.loops s.nextSessionId .starting
      nextSessionId := (s.nextSessionId + 1) % 2 ^ 16 }

/-- The loop over the messages that were received. -/
def take : List Handling → RecvLoop
  | [] => s.next
  | msg :: msgs => .handling msg msgs

/-- A message is handled, with these behind it. -/
def handled (sessionId : ℕ) (msgs : List Handling) : Handling → AcceptorThreads
  | .goesOn => s.goTo sessionId (s.take msgs)
  | .logsOut => s.goTo sessionId .ended
  | .hangs => { s.goTo sessionId .hung with locked := true }

/-- A step. Nothing happens where the thread is elsewhere or waits: for the mutex, or for another
thread to end. -/
def act : ThreadAction → AcceptorThreads
  | .callAccept =>
    if s.accept = .calling then { s with accept := if s.running then .accepting else .ended } else s
  | .accepted => if s.accept = .accepting then { s with accept := .registering } else s
  | .register => if s.accept = .registering ∧ s.locked = false then s.registered else s
  | .begin id => if s.loops id = .starting ∧ s.locked = false then s.goTo id s.next else s
  | .received id msgs => if s.loops id = .receiving then s.goTo id (s.take msgs) else s
  | .gone id => if s.loops id = .receiving then s.goTo id .leaving else s
  | .handle id =>
    match s.loops id with
    | .handling msg msgs => if s.locked then s else s.handled id msgs msg
    | _ => s
  | .leave id => if s.loops id = .leaving ∧ s.locked = false then s.goTo id .ended else s
  | .callStop =>
    if s.stop = .notCalled then { s with running := false, stop := .joiningAccept } else s
  | .joinAccept =>
    if s.stop = .joiningAccept ∧ s.accept = .ended then { s with stop := .locking } else s
  | .lock =>
    if s.stop = .locking ∧ s.locked = false then
      { s with stop := .joining s.sessions, locked := true }
    else s
  | .join =>
    match s.stop with
    | .joining (id :: rest) => if s.loops id = .ended then { s with stop := .joining rest } else s
    | .joining [] => { s with stop := .returned, sessions := [], locked := false }
    | _ => s

/-- The step as that of a machine. -/
def step (action : ThreadAction) : AcceptorThreads × List Unit := (s.act action, [])

end AcceptorThreads

/-! ### When `stop` can return -/

/-- What a client does. -/
def ThreadAction.ofClient : ThreadAction → Bool
  | .accepted | .received _ _ | .gone _ => true
  | _ => false

/-- The handling of some message does not come back. -/
def Handling.anyHangs : List Handling → Bool
  | [] => false
  | .goesOn :: msgs => anyHangs msgs
  | .logsOut :: _ => false
  | .hangs :: _ => true

/-- The loop is in a handler that does not come back, or will be. -/
def RecvLoop.doomed : RecvLoop → Bool
  | .handling msg msgs => Handling.anyHangs (msg :: msgs)
  | .hung => true
  | _ => false

namespace AcceptorThreads

/-- The accept loop has ended the process, or will when it has a client. -/
def NoSession (s : AcceptorThreads) : Prop :=
  s.accept = .terminated ∨
    (s.accept = .accepting ∨ s.accept = .registering) ∧ s.nextSessionId ∈ s.sessions

/-- `stop` will not return, whatever the clients do: a message hangs, there is no session for a
client, or `stop` holds the mutex and waits for a loop that has not ended. -/
structure Stuck (s : AcceptorThreads) : Prop where
  stop : s.stop ≠ .returned
  cause : (∃ id, (s.loops id).doomed = true) ∨ s.NoSession ∨
    ∃ rest, s.stop = .joining rest ∧ ∃ id ∈ rest, s.loops id ≠ .ended

/-- `stop` will not return before a client does something: one connects, or one goes. -/
structure Waits (s : AcceptorThreads) : Prop where
  stop : s.stop ≠ .returned
  cause : s.accept = .accepting ∨ ∃ id, s.loops id = .receiving

/-- There is a way for the threads to go on in which `stop` returns, `clients` being whether clients
do anything. -/
def CanReturn (s : AcceptorThreads) (clients : Bool) : Prop :=
  ∃ actions, (clients = false → ∀ action ∈ actions, action.ofClient = false) ∧
    (Machine.run step s actions).1.stop = .returned

/-- What holds in every run. -/
structure Inv (s : AcceptorThreads) : Prop where
  running : s.running = true ↔ s.stop = .notCalled
  accept : s.accept = .ended ∨ s.stop = .notCalled ∨ s.stop = .joiningAccept
  sessions : s.stop ≠ .returned → ∀ id, s.loops id ≠ .ended → id ∈ s.sessions
  joining : ∀ rest, s.stop = .joining rest → s.locked = true ∧
    ∀ id, s.loops id ≠ .ended → id ∈ rest
  locked : s.locked = true → (∃ id, s.loops id = .hung) ∨ ∃ rest, s.stop = .joining rest

section

variable {s : AcceptorThreads} {id id' : ℕ} {loop : RecvLoop} {msgs : List Handling}

@[simp] lemma goTo_self : (s.goTo id loop).loops id = loop := Function.update_self ..

lemma goTo_of_ne (h : id' ≠ id) : (s.goTo id loop).loops id' = s.loops id' :=
  Function.update_of_ne h ..

/-- What a step makes of a receive loop. -/
lemma loops_goTo : (s.goTo id loop).loops id' = if id' = id then loop else s.loops id' :=
  Function.update_apply ..

lemma next_ne_ended : s.next ≠ .ended := by
  rw [next]
  split <;> simp

lemma take_ne_ended : s.take msgs ≠ .ended := by
  cases msgs with
  | nil => exact next_ne_ended
  | cons msg msgs => simp [take]

/-- A loop that is running stays known when it goes on. -/
lemma Inv.goTo (h : s.Inv) (hid : s.loops id ≠ .ended) (hhung : s.loops id ≠ .hung) :
    (s.goTo id loop).Inv where
  running := h.running
  accept := h.accept
  sessions hstop id' hid' := by
    by_cases heq : id' = id
    · rw [heq]
      exact h.sessions hstop id hid
    · rw [goTo_of_ne heq] at hid'
      exact h.sessions hstop id' hid'
  joining rest hstop := by
    obtain ⟨hlocked, hrest⟩ := h.joining rest hstop
    refine ⟨hlocked, fun id' hid' => ?_⟩
    by_cases heq : id' = id
    · rw [heq]
      exact hrest id hid
    · rw [goTo_of_ne heq] at hid'
      exact hrest id' hid'
  locked hlocked := by
    rcases h.locked hlocked with ⟨id', hid'⟩ | hjoining
    · have hne : id' ≠ id := fun heq => hhung (heq ▸ hid')
      exact Or.inl ⟨id', by rw [goTo_of_ne hne, hid']⟩
    · exact Or.inr hjoining

lemma registered_of_mem (hmem : s.nextSessionId ∈ s.sessions) :
    s.registered = { s with accept := .terminated } := if_pos hmem

lemma registered_of_not_mem (hmem : s.nextSessionId ∉ s.sessions) : s.registered = { s with
    accept := if s.running then .calling else .ended
    sessions := s.sessions ++ [s.nextSessionId]
    loops := Function.update s.loops s.nextSessionId .starting
    nextSessionId := (s.nextSessionId + 1) % 2 ^ 16 } := if_neg hmem

lemma Inv.registered (h : s.Inv) (haccept : s.accept = .registering) (hlocked : s.locked = false) :
    s.registered.Inv := by
  by_cases hmem : s.nextSessionId ∈ s.sessions
  · rw [registered_of_mem hmem]
    have hstop := h.accept.resolve_left (by simp [haccept])
    exact ⟨h.running, Or.inr hstop, h.sessions, h.joining, h.locked⟩
  rw [registered_of_not_mem hmem]
  constructor
  case running => exact h.running
  case accept =>
    cases hrunning : s.running with
    | true => exact Or.inr (Or.inl (h.running.mp hrunning))
    | false => exact Or.inl (by simp)
  case sessions =>
    intro hstop id hid
    by_cases heq : id = s.nextSessionId
    · exact List.mem_append_right _ (by simp [heq])
    · simp only [Function.update_of_ne heq] at hid
      exact List.mem_append_left _ (h.sessions hstop id hid)
  case joining =>
    intro rest hstop
    have := (h.joining rest hstop).1
    simp [hlocked] at this
  case locked =>
    intro h'
    have : s.locked = true := h'
    simp [hlocked] at this

lemma Inv.handled (h : s.Inv) {msg : Handling} (hid : s.loops id = .handling msg msgs)
    (hlocked : s.locked = false) : (s.handled id msgs msg).Inv := by
  have hne : s.loops id ≠ .ended := by simp [hid]
  have hhung : s.loops id ≠ .hung := by simp [hid]
  cases msg with
  | goesOn => exact h.goTo hne hhung
  | logsOut => exact h.goTo hne hhung
  | hangs =>
    have hgoTo : (s.goTo id .hung).Inv := h.goTo hne hhung
    refine ⟨hgoTo.running, hgoTo.accept, hgoTo.sessions, fun rest hstop => ?_,
      fun _ => Or.inl ⟨id, goTo_self⟩⟩
    have := (h.joining rest hstop).1
    simp [hlocked] at this

/-- `stop` takes the mutex. -/
lemma Inv.lock (h : s.Inv) (hstop : s.stop = .locking) :
    ({ s with stop := .joining s.sessions, locked := true } : AcceptorThreads).Inv where
  running := by simpa [hstop] using h.running
  accept := Or.inl (h.accept.resolve_right (by simp [hstop]))
  sessions _ := h.sessions (by simp [hstop])
  joining := by
    rintro rest ⟨⟩
    exact ⟨rfl, h.sessions (by simp [hstop])⟩
  locked _ := Or.inr ⟨_, rfl⟩

/-- `stop` joins a loop that has ended. -/
lemma Inv.joined (h : s.Inv) {rest : List ℕ} (hstop : s.stop = .joining (id :: rest))
    (hid : s.loops id = .ended) : ({ s with stop := .joining rest } : AcceptorThreads).Inv := by
  obtain ⟨hlocked, hrest⟩ := h.joining _ hstop
  refine ⟨by simpa [hstop] using h.running, Or.inl (h.accept.resolve_right (by simp [hstop])),
    fun _ => h.sessions (by simp [hstop]), ?_, fun _ => Or.inr ⟨rest, rfl⟩⟩
  rintro _ ⟨⟩
  refine ⟨hlocked, fun id' hid' => (List.mem_cons.mp (hrest id' hid')).resolve_left ?_⟩
  rintro rfl
  exact hid' hid

/-- `stop` returns. -/
lemma Inv.returned (h : s.Inv) (hstop : s.stop = .joining []) :
    ({ s with stop := .returned, sessions := [], locked := false } : AcceptorThreads).Inv where
  running := by simpa [hstop] using h.running
  accept := Or.inl (h.accept.resolve_right (by simp [hstop]))
  sessions hne := absurd rfl hne
  joining := by
    rintro rest ⟨⟩
  locked := by simp

/-- Every step keeps the invariant. -/
lemma Inv.act (h : s.Inv) (action : ThreadAction) : (s.act action).Inv := by
  cases action with
  | callAccept =>
    rw [AcceptorThreads.act]
    split_ifs with haccept hrunning
    · exact ⟨h.running, Or.inr (Or.inl (h.running.mp hrunning)), h.sessions, h.joining, h.locked⟩
    · exact ⟨h.running, Or.inl rfl, h.sessions, h.joining, h.locked⟩
    · exact h
  | accepted =>
    rw [AcceptorThreads.act]
    split_ifs with haccept
    · have hstop := h.accept.resolve_left (by simp [haccept])
      exact ⟨h.running, Or.inr hstop, h.sessions, h.joining, h.locked⟩
    · exact h
  | register =>
    rw [AcceptorThreads.act]
    split_ifs with haccept
    · exact h.registered haccept.1 haccept.2
    · exact h
  | begin id =>
    rw [AcceptorThreads.act]
    split_ifs with hid
    · exact h.goTo (by simp [hid.1]) (by simp [hid.1])
    · exact h
  | received id msgs =>
    rw [AcceptorThreads.act]
    split_ifs with hid
    · exact h.goTo (by simp [hid]) (by simp [hid])
    · exact h
  | gone id =>
    rw [AcceptorThreads.act]
    split_ifs with hid
    · exact h.goTo (by simp [hid]) (by simp [hid])
    · exact h
  | handle id =>
    cases hid : s.loops id with
    | handling msg msgs =>
      cases hlocked : s.locked with
      | true => simpa [AcceptorThreads.act, hid, hlocked] using h
      | false => simpa [AcceptorThreads.act, hid, hlocked] using h.handled hid hlocked
    | _ => simpa [AcceptorThreads.act, hid] using h
  | leave id =>
    rw [AcceptorThreads.act]
    split_ifs with hid
    · exact h.goTo (by simp [hid.1]) (by simp [hid.1])
    · exact h
  | callStop =>
    rw [AcceptorThreads.act]
    split_ifs with hstop
    · refine ⟨by simp, Or.inr (Or.inr rfl), fun _ => h.sessions (by simp [hstop]), ?_, ?_⟩
      · rintro rest ⟨⟩
      · intro hlocked
        exact Or.inl ((h.locked hlocked).resolve_right (by simp [hstop]))
    · exact h
  | joinAccept =>
    rw [AcceptorThreads.act]
    split_ifs with hstop
    · refine ⟨?_, Or.inl hstop.2, fun _ => h.sessions (by simp [hstop.1]), ?_, ?_⟩
      · simpa [hstop.1] using h.running
      · rintro rest ⟨⟩
      · intro hlocked
        exact Or.inl ((h.locked hlocked).resolve_right (by simp [hstop.1]))
    · exact h
  | lock =>
    rw [AcceptorThreads.act]
    split_ifs with hstop
    · exact h.lock hstop.1
    · exact h
  | join =>
    cases hstop : s.stop with
    | joining rest =>
      cases rest with
      | nil => simpa only [AcceptorThreads.act, hstop] using h.returned hstop
      | cons id rest =>
        simp only [AcceptorThreads.act, hstop]
        split_ifs with hid
        · exact h.joined hstop hid
        · exact h
    | _ => simpa [AcceptorThreads.act, hstop] using h

lemma inv_start : start.Inv where
  running := by simp [start]
  accept := Or.inr (Or.inl rfl)
  sessions _ _ h := absurd rfl h
  joining _ h := by cases h
  locked h := by cases h

/-! ### A deadlock stays -/

/-- How a receive loop can go on with an action, `loop` being where it gets. -/
inductive Moves (s : AcceptorThreads) (action : ThreadAction) (id : ℕ) : (loop : RecvLoop) → Prop
  | registered : s.accept = .registering → s.nextSessionId ∉ s.sessions → id = s.nextSessionId →
    s.locked = false → Moves s action id .starting
  | begin : s.loops id = .starting → s.locked = false → Moves s action id s.next
  | received (msgs : List Handling) : action.ofClient = true → s.loops id = .receiving →
    Moves s action id (s.take msgs)
  | gone : action.ofClient = true → s.loops id = .receiving → Moves s action id .leaving
  | goesOn (msgs : List Handling) :
    s.loops id = .handling .goesOn msgs → s.locked = false → Moves s action id (s.take msgs)
  | logsOut (msgs : List Handling) :
    s.loops id = .handling .logsOut msgs → s.locked = false → Moves s action id .ended
  | hangs (msgs : List Handling) :
    s.loops id = .handling .hangs msgs → s.locked = false → Moves s action id .hung
  | leave : s.loops id = .leaving → s.locked = false → Moves s action id .ended

/-- An action moves one receive loop at most. -/
lemma loops_act (action : ThreadAction) : (s.act action).loops = s.loops ∨
    ∃ id loop, s.Moves action id loop ∧
      (s.act action).loops = Function.update s.loops id loop := by
  cases action with
  | register =>
    rw [act]
    split_ifs with hif
    · by_cases hmem : s.nextSessionId ∈ s.sessions
      · rw [registered_of_mem hmem]
        exact Or.inl rfl
      · rw [registered_of_not_mem hmem]
        exact Or.inr ⟨_, _, .registered hif.1 hmem rfl hif.2, rfl⟩
    · exact Or.inl rfl
  | begin id =>
    rw [act]
    split_ifs with hif
    · exact Or.inr ⟨_, _, .begin hif.1 hif.2, rfl⟩
    · exact Or.inl rfl
  | received id msgs =>
    rw [act]
    split_ifs with hif
    · exact Or.inr ⟨_, _, .received msgs rfl hif, rfl⟩
    · exact Or.inl rfl
  | gone id =>
    rw [act]
    split_ifs with hif
    · exact Or.inr ⟨_, _, .gone rfl hif, rfl⟩
    · exact Or.inl rfl
  | handle id =>
    cases hloop : s.loops id with
    | handling msg msgs =>
      cases hlocked : s.locked with
      | true => exact Or.inl (by simp [act, hloop, hlocked])
      | false =>
        refine Or.inr ⟨id, ?_⟩
        simp only [act, hloop, hlocked, Bool.false_eq_true, if_false]
        cases msg with
        | goesOn => exact ⟨_, .goesOn msgs hloop hlocked, rfl⟩
        | logsOut => exact ⟨_, .logsOut msgs hloop hlocked, rfl⟩
        | hangs => exact ⟨_, .hangs msgs hloop hlocked, rfl⟩
    | _ => exact Or.inl (by simp [act, hloop])
  | leave id =>
    rw [act]
    split_ifs with hif
    · exact Or.inr ⟨_, _, .leave hif.1 hif.2, rfl⟩
    · exact Or.inl rfl
  | join =>
    left
    cases hstop : s.stop with
    | joining rest =>
      cases rest with
      | nil => simp [act, hstop]
      | cons id rest =>
        simp only [act, hstop]
        split_ifs <;> rfl
    | _ => simp [act, hstop]
  | _ =>
    left
    rw [act]
    split_ifs <;> rfl

/-- What holds of a loop still holds if it holds where the action moves the loop. -/
lemma loops_act_of {p : RecvLoop → Prop} (hid : p (s.loops id)) {action : ThreadAction}
    (hmoves : ∀ loop, s.Moves action id loop → p loop) : p ((s.act action).loops id) := by
  rcases loops_act (s := s) action with heq | ⟨id', loop, hmove, heq⟩
  · rwa [heq]
  rw [heq]
  by_cases hne : id = id'
  · subst hne
    rw [Function.update_self]
    exact hmoves loop hmove
  · rwa [Function.update_of_ne hne]

lemma doomed_take : (s.take msgs).doomed = Handling.anyHangs msgs := by
  cases msgs with
  | nil =>
    rw [take, next]
    split <;> rfl
  | cons msg msgs => rfl

/-- A client that gets a session gets a new one. -/
lemma Inv.loops_of_registered (h : s.Inv) (haccept : s.accept = .registering)
    (hmem : s.nextSessionId ∉ s.sessions) : s.loops s.nextSessionId = .ended := by
  have hstop : s.stop ≠ .returned := by
    have hcases := h.accept.resolve_left (by simp [haccept])
    rcases hcases with heq | heq <;> simp [heq]
  by_contra hne
  exact hmem (h.sessions hstop _ hne)

/-- A message that hangs is handled sooner or later, or waits for the mutex. -/
lemma doomed_act (h : s.Inv) (hid : (s.loops id).doomed = true) (action : ThreadAction) :
    ((s.act action).loops id).doomed = true := by
  refine loops_act_of (p := fun loop => loop.doomed = true) hid fun loop hmoves => ?_
  cases hmoves with
  | registered haccept hmem hnext =>
    rw [hnext, h.loops_of_registered haccept hmem] at hid
    cases hid
  | begin hloop => simp [hloop, RecvLoop.doomed] at hid
  | received msgs _ hloop => simp [hloop, RecvLoop.doomed] at hid
  | gone _ hloop => simp [hloop, RecvLoop.doomed] at hid
  | goesOn msgs hloop =>
    rw [hloop] at hid
    rwa [doomed_take]
  | logsOut msgs hloop =>
    rw [hloop] at hid
    cases hid
  | hangs => rfl
  | leave hloop => simp [hloop, RecvLoop.doomed] at hid

/-- While the mutex is held, no loop ends. -/
lemma ne_ended_act (hlocked : s.locked = true) (hid : s.loops id ≠ .ended)
    (action : ThreadAction) : (s.act action).loops id ≠ .ended := by
  refine loops_act_of (p := fun loop => loop ≠ .ended) hid fun loop hmoves => ?_
  cases hmoves with
  | received msgs => exact take_ne_ended
  | gone => simp
  | registered _ _ _ hfree => simp [hlocked] at hfree
  | begin _ hfree | goesOn _ _ hfree | logsOut _ _ hfree | hangs _ _ hfree | leave _ hfree =>
    simp [hlocked] at hfree

/-- A loop that waits for its client goes on with the client only. -/
lemma receiving_act (h : s.Inv) (hid : s.loops id = .receiving) {action : ThreadAction}
    (hno : action.ofClient = false) : (s.act action).loops id = .receiving := by
  refine loops_act_of (p := fun loop => loop = .receiving) hid fun loop hmoves => ?_
  cases hmoves with
  | registered haccept hmem hnext =>
    rw [hnext, h.loops_of_registered haccept hmem] at hid
    cases hid
  | received msgs hclient => simp [hno] at hclient
  | gone hclient => simp [hno] at hclient
  | begin hloop | goesOn _ hloop | logsOut _ hloop | hangs _ hloop | leave hloop =>
    simp [hloop] at hid

/-- What an action does to the accept loop and the sessions. -/
lemma accept_act (action : ThreadAction) :
    ((s.act action).accept = s.accept ∧ (s.act action).nextSessionId = s.nextSessionId ∧
      (s.act action).sessions = s.sessions) ∨
    s.accept = .calling ∨
    s.accept = .accepting ∧ action = .accepted ∧ s.act action = { s with accept := .registering } ∨
    s.accept = .registering ∧ s.act action = s.registered ∨
    s.stop = .joining [] := by
  cases action with
  | callAccept =>
    by_cases hif : s.accept = .calling
    · exact Or.inr (Or.inl hif)
    · rw [act, if_neg hif]
      exact Or.inl ⟨rfl, rfl, rfl⟩
  | accepted =>
    rw [act]
    split_ifs with hif
    · exact Or.inr (Or.inr (Or.inl ⟨hif, rfl, rfl⟩))
    · exact Or.inl ⟨rfl, rfl, rfl⟩
  | register =>
    rw [act]
    split_ifs with hif
    · exact Or.inr (Or.inr (Or.inr (Or.inl ⟨hif.1, rfl⟩)))
    · exact Or.inl ⟨rfl, rfl, rfl⟩
  | handle id =>
    left
    cases hloop : s.loops id with
    | handling msg msgs =>
      cases hlocked : s.locked with
      | true => simp [act, hloop, hlocked]
      | false => cases msg <;> simp [act, hloop, hlocked, handled, goTo]
    | _ => simp [act, hloop]
  | join =>
    cases hstop : s.stop with
    | joining rest =>
      cases rest with
      | nil => simp
      | cons id rest =>
        left
        simp only [act, hstop]
        split_ifs <;> exact ⟨rfl, rfl, rfl⟩
    | _ => simp [act, hstop]
  | _ =>
    left
    rw [act]
    split_ifs <;> exact ⟨rfl, rfl, rfl⟩

lemma Inv.accept_of_joining (h : s.Inv) {rest : List ℕ} (hstop : s.stop = .joining rest) :
    s.accept = .ended := h.accept.resolve_right (by simp [hstop])

/-- No session comes free. -/
lemma NoSession.act (h : s.Inv) (hn : s.NoSession) (action : ThreadAction) :
    (s.act action).NoSession := by
  rcases accept_act (s := s) action with ⟨haccept, hnext, hsessions⟩ | hcalling |
    ⟨haccept, -, hact⟩ | ⟨haccept, hact⟩ | hstop
  · rw [NoSession, haccept, hnext, hsessions]
    exact hn
  · simp [NoSession, hcalling] at hn
  · have hmem : s.nextSessionId ∈ s.sessions := by simpa [NoSession, haccept] using hn
    rw [hact]
    exact Or.inr ⟨Or.inr rfl, hmem⟩
  · have hmem : s.nextSessionId ∈ s.sessions := by simpa [NoSession, haccept] using hn
    rw [hact, registered_of_mem hmem]
    exact Or.inl rfl
  · simp [NoSession, h.accept_of_joining hstop] at hn

/-- How far `stop` has got changes by its own actions only. -/
lemma stop_act (action : ThreadAction) : (s.act action).stop = s.stop ∨
    s.stop = .notCalled ∧ (s.act action).stop = .joiningAccept ∨
    s.stop = .joiningAccept ∧ (s.act action).stop = .locking ∨
    s.stop = .locking ∧ s.locked = false ∧ (s.act action).stop = .joining s.sessions ∨
    (∃ id rest, s.stop = .joining (id :: rest) ∧ s.loops id = .ended ∧
      (s.act action).stop = .joining rest) ∨
    s.stop = .joining [] ∧ (s.act action).stop = .returned := by
  cases action with
  | handle id =>
    left
    cases hloop : s.loops id with
    | handling msg msgs =>
      cases hlocked : s.locked with
      | true => simp [act, hloop, hlocked]
      | false => cases msg <;> simp [act, hloop, hlocked, handled, goTo]
    | _ => simp [act, hloop]
  | register =>
    left
    rw [act]
    split_ifs
    · rw [registered]
      split_ifs <;> rfl
    · rfl
  | callStop =>
    rw [act]
    split_ifs with hif
    · exact Or.inr (Or.inl ⟨hif, rfl⟩)
    · exact Or.inl rfl
  | joinAccept =>
    rw [act]
    split_ifs with hif
    · exact Or.inr (Or.inr (Or.inl ⟨hif.1, rfl⟩))
    · exact Or.inl rfl
  | lock =>
    rw [act]
    split_ifs with hif
    · exact Or.inr (Or.inr (Or.inr (Or.inl ⟨hif.1, hif.2, rfl⟩)))
    · exact Or.inl rfl
  | join =>
    cases hstop : s.stop with
    | joining rest =>
      cases rest with
      | nil => simp [act, hstop]
      | cons id rest =>
        simp only [act, hstop]
        split_ifs with hif
        · exact Or.inr (Or.inr (Or.inr (Or.inr (Or.inl ⟨id, rest, rfl, hif, rfl⟩))))
        · exact Or.inl hstop
    | _ => simp [act, hstop]
  | _ =>
    left
    rw [act]
    split_ifs <;> rfl

/-- `stop` returns when all loops have ended. -/
lemma Inv.stop_act_ne (h : s.Inv) (hstop : s.stop ≠ .returned) {action : ThreadAction}
    (hrunning : s.accept ≠ .ended ∨ ∃ id, s.loops id ≠ .ended) :
    (s.act action).stop ≠ .returned := by
  rcases stop_act (s := s) action with heq | ⟨-, heq⟩ | ⟨-, heq⟩ | ⟨-, -, heq⟩ |
    ⟨_, _, -, -, heq⟩ | ⟨hnil, -⟩
  · rwa [heq]
  · simp [heq]
  · simp [heq]
  · simp [heq]
  · simp [heq]
  · rcases hrunning with haccept | ⟨id, hid⟩
    · exact absurd (h.accept_of_joining hnil) haccept
    · have := (h.joining [] hnil).2 id hid
      cases this

lemma Stuck.act (h : s.Inv) (hs : s.Stuck) (action : ThreadAction) : (s.act action).Stuck := by
  obtain ⟨hstop, ⟨id, hdoomed⟩ | hnone | ⟨rest, hrest, id, hmem, hne⟩⟩ := hs
  · have hid : s.loops id ≠ .ended := by
      intro hended
      rw [hended] at hdoomed
      cases hdoomed
    exact ⟨h.stop_act_ne hstop (Or.inr ⟨id, hid⟩), Or.inl ⟨id, doomed_act h hdoomed action⟩⟩
  · have haccept : s.accept ≠ .ended := by
      intro hended
      simp [NoSession, hended] at hnone
    exact ⟨h.stop_act_ne hstop (Or.inl haccept), Or.inr (Or.inl (hnone.act h action))⟩
  · have hne' := ne_ended_act (h.joining rest hrest).1 hne action
    refine ⟨h.stop_act_ne hstop (Or.inr ⟨id, hne⟩), Or.inr (Or.inr ?_)⟩
    rcases stop_act (s := s) action with heq | ⟨heq, -⟩ | ⟨heq, -⟩ | ⟨heq, -⟩ |
      ⟨id', rest', heq, hended, heq'⟩ | ⟨heq, -⟩
    · exact ⟨rest, heq.trans hrest, id, hmem, hne'⟩
    · simp [hrest] at heq
    · simp [hrest] at heq
    · simp [hrest] at heq
    · rw [hrest] at heq
      cases heq
      refine ⟨rest', heq', id, (List.mem_cons.mp hmem).resolve_left ?_, hne'⟩
      rintro rfl
      exact hne hended
    · rw [hrest] at heq
      cases heq
      cases hmem

lemma Stuck.not_canReturn (h : s.Inv) (hs : s.Stuck) (clients : Bool) :
    ¬s.CanReturn clients := by
  rintro ⟨actions, -, hreturned⟩
  induction actions generalizing s with
  | nil => exact hs.stop hreturned
  | cons action actions ih => exact ih (h.act action) (hs.act h action) hreturned

/-- What waits for a client waits until one does something. -/
lemma Waits.act (h : s.Inv) (hw : s.Waits) {action : ThreadAction}
    (hno : action.ofClient = false) : (s.act action).Waits := by
  obtain ⟨hstop, haccept | ⟨id, hid⟩⟩ := hw
  · refine ⟨h.stop_act_ne hstop (Or.inl (by simp [haccept])), Or.inl ?_⟩
    rcases accept_act (s := s) action with ⟨heq, -, -⟩ | hcalling | ⟨-, rfl, -⟩ | ⟨heq, -⟩ | hnil
    · exact heq.trans haccept
    · simp [haccept] at hcalling
    · cases hno
    · simp [haccept] at heq
    · have := h.accept_of_joining hnil
      simp [haccept] at this
  · exact ⟨h.stop_act_ne hstop (Or.inr ⟨id, by simp [hid]⟩),
      Or.inr ⟨id, receiving_act h hid hno⟩⟩

lemma Waits.not_canReturn (h : s.Inv) (hw : s.Waits) : ¬s.CanReturn false := by
  rintro ⟨actions, hno, hreturned⟩
  induction actions generalizing s with
  | nil => exact hw.stop hreturned
  | cons action actions ih =>
    obtain ⟨haction, hactions⟩ := List.forall_mem_cons.mp (hno rfl)
    exact ih (h.act action) (hw.act h haction) (fun _ => hactions) hreturned

/-! ### Otherwise `stop` can return -/

variable {clients : Bool}

lemma CanReturn.of_act (action : ThreadAction) (hno : clients = false → action.ofClient = false)
    (h : (s.act action).CanReturn clients) : s.CanReturn clients := by
  obtain ⟨actions, hactions, hreturned⟩ := h
  exact ⟨action :: actions, fun hc => List.forall_mem_cons.mpr ⟨hno hc, hactions hc⟩, hreturned⟩

/-- All that is left is to join loops that have ended. -/
lemma canReturn_of_joining {rest : List ℕ} (hstop : s.stop = .joining rest)
    (hended : ∀ id ∈ rest, s.loops id = .ended) : s.CanReturn clients := by
  induction rest generalizing s with
  | nil =>
    exact .of_act .join (fun _ => rfl) ⟨[], fun _ => List.forall_mem_nil _, by simp [act, hstop]⟩
  | cons id rest ih =>
    apply CanReturn.of_act .join fun _ => rfl
    have hact : s.act .join = { s with stop := .joining rest } := by
      simp only [act, hstop, hended id List.mem_cons_self, if_true]
    rw [hact]
    exact ih rfl fun id' hmem => hended id' (List.mem_cons_of_mem _ hmem)

/-- `stop` is about to take the mutex, which is free, no message hangs, and no loop waits for a
client that does nothing. -/
structure Clear (s : AcceptorThreads) (clients : Bool) : Prop where
  running : s.running = false
  stop : s.stop = .locking
  locked : s.locked = false
  doomed : ∀ id, (s.loops id).doomed = false
  receiving : clients = false → ∀ id, s.loops id ≠ .receiving

lemma Clear.goTo (h : s.Clear clients) (hdoomed : loop.doomed = false)
    (hreceiving : loop ≠ .receiving) : (s.goTo id loop).Clear clients where
  running := h.running
  stop := h.stop
  locked := h.locked
  doomed id' := by
    rw [loops_goTo]
    split_ifs
    · exact hdoomed
    · exact h.doomed id'
  receiving hc id' := by
    rw [loops_goTo]
    split_ifs
    · exact hreceiving
    · exact h.receiving hc id'

/-- A loop that does not hang can end, the others staying where they are. -/
lemma Clear.canReturn_of_ended (h : s.Clear clients) (id : ℕ)
    (hgoTo : (s.goTo id .ended).CanReturn clients) : s.CanReturn clients := by
  have hupdate (s : AcceptorThreads) (loop loop' : RecvLoop) :
      (s.goTo id loop).goTo id loop' = s.goTo id loop' := by
    simp [AcceptorThreads.goTo]
  -- after the loop, it closes its socket
  have hleaving (s : AcceptorThreads) (h : s.Clear clients) (hloop : s.loops id = .leaving)
      (hgoTo : (s.goTo id .ended).CanReturn clients) : s.CanReturn clients :=
    .of_act (.leave id) (fun _ => rfl) (by rwa [act, if_pos ⟨hloop, h.locked⟩])
  have hnext : (s.goTo id s.next).CanReturn clients := by
    have hleave : s.next = .leaving := by simp [next, h.running]
    rw [hleave]
    exact hleaving _ (h.goTo rfl (by simp)) goTo_self (by rwa [hupdate])
  cases hloop : s.loops id with
  | starting =>
    exact .of_act (.begin id) (fun _ => rfl) (by rwa [act, if_pos ⟨hloop, h.locked⟩])
  | receiving =>
    apply CanReturn.of_act (.gone id) fun hc => absurd hloop (h.receiving hc id)
    rw [act, if_pos hloop]
    exact hleaving _ (h.goTo rfl (by simp)) goTo_self (by rwa [hupdate])
  | handling msg msgs =>
    induction msgs generalizing s msg with
    | nil =>
      apply CanReturn.of_act (.handle id) fun _ => rfl
      simp only [act, hloop, h.locked, Bool.false_eq_true, if_false]
      cases msg with
      | goesOn => exact hnext
      | logsOut => exact hgoTo
      | hangs =>
        have := h.doomed id
        simp [hloop, RecvLoop.doomed, Handling.anyHangs] at this
    | cons msg' msgs ih =>
      apply CanReturn.of_act (.handle id) fun _ => rfl
      simp only [act, hloop, h.locked, Bool.false_eq_true, if_false]
      have hdoomed := h.doomed id
      rw [hloop] at hdoomed
      cases msg with
      | goesOn =>
        have hnext' : ((s.goTo id (.handling msg' msgs)).goTo id
            (s.goTo id (.handling msg' msgs)).next).CanReturn clients := by
          rwa [hupdate]
        exact ih (s := s.goTo id (.handling msg' msgs)) (h.goTo hdoomed (by simp))
          (by rwa [hupdate]) hnext' msg' goTo_self
      | logsOut => exact hgoTo
      | hangs => cases hdoomed
  | hung =>
    have := h.doomed id
    simp [hloop, RecvLoop.doomed] at this
  | leaving => exact hleaving s h hloop hgoTo
  | ended =>
    have hsame : s.goTo id .ended = s := by
      rw [AcceptorThreads.goTo, ← hloop, Function.update_eq_self]
    rwa [hsame] at hgoTo

/-- All loops can end before `stop` takes the mutex. -/
lemma Clear.canReturn (h : s.Clear clients) {ids : List ℕ}
    (hids : ∀ id, s.loops id ≠ .ended → id ∈ ids) : s.CanReturn clients := by
  induction ids generalizing s with
  | nil =>
    have hended (id : ℕ) : s.loops id = .ended := by
      by_contra hne
      cases hids id hne
    apply CanReturn.of_act .lock fun _ => rfl
    rw [act, if_pos ⟨h.stop, h.locked⟩]
    exact canReturn_of_joining rfl fun id _ => hended id
  | cons id ids ih =>
    apply h.canReturn_of_ended id
    apply ih (h.goTo rfl (by simp))
    intro id' hid'
    rw [loops_goTo] at hid'
    split_ifs at hid' with heq
    · exact absurd rfl hid'
    · exact (List.mem_cons.mp (hids id' hid')).resolve_left heq

/-- The mutex is free unless a message hangs or `stop` joins. -/
lemma Inv.locked_eq_false (h : s.Inv) (hdoomed : ∀ id, (s.loops id).doomed = false)
    (hstop : ∀ rest, s.stop ≠ .joining rest) : s.locked = false := by
  by_contra hne
  rcases h.locked (by simpa using hne) with ⟨id, hid⟩ | ⟨rest, hrest⟩
  · have := hdoomed id
    simp [hid, RecvLoop.doomed] at this
  · exact hstop rest hrest

lemma Inv.running_eq_false (h : s.Inv) (hstop : s.stop ≠ .notCalled) : s.running = false := by
  have : ¬s.running = true := fun heq => hstop (h.running.mp heq)
  simpa using this

/-- Where `stop` is about to take the mutex, it can return unless a message hangs. -/
lemma Inv.canReturn_of_locking (h : s.Inv) (hstop : s.stop = .locking)
    (hdoomed : ∀ id, (s.loops id).doomed = false)
    (hreceiving : clients = false → ∀ id, s.loops id ≠ .receiving) : s.CanReturn clients := by
  have hlocked := h.locked_eq_false hdoomed (by simp [hstop])
  have hrunning := h.running_eq_false (by simp [hstop])
  exact Clear.canReturn ⟨hrunning, hstop, hlocked, hdoomed, hreceiving⟩
    (h.sessions (by simp [hstop]))

/-- `stop` waits for the accept loop, which has ended. -/
lemma Inv.canReturn_of_ended (h : s.Inv) (hstop : s.stop = .joiningAccept)
    (haccept : s.accept = .ended) (hdoomed : ∀ id, (s.loops id).doomed = false)
    (hreceiving : clients = false → ∀ id, s.loops id ≠ .receiving) : s.CanReturn clients := by
  apply CanReturn.of_act .joinAccept fun _ => rfl
  have hinv := h.act .joinAccept
  rw [AcceptorThreads.act, if_pos ⟨hstop, haccept⟩] at hinv ⊢
  exact hinv.canReturn_of_locking rfl hdoomed hreceiving

/-- The accept loop has a client, for which there is a session. -/
lemma Inv.canReturn_of_registering (h : s.Inv) (hstop : s.stop = .joiningAccept)
    (haccept : s.accept = .registering) (hmem : s.nextSessionId ∉ s.sessions)
    (hdoomed : ∀ id, (s.loops id).doomed = false)
    (hreceiving : clients = false → ∀ id, s.loops id ≠ .receiving) : s.CanReturn clients := by
  have hlocked := h.locked_eq_false hdoomed (by simp [hstop])
  have hrunning := h.running_eq_false (by simp [hstop])
  apply CanReturn.of_act .register fun _ => rfl
  have hinv := h.act .register
  rw [AcceptorThreads.act, if_pos ⟨haccept, hlocked⟩, registered_of_not_mem hmem] at hinv ⊢
  refine hinv.canReturn_of_ended hstop (by simp [hrunning]) (fun id => ?_) fun hc id => ?_
  · simp only [Function.update_apply]
    split_ifs
    · rfl
    · exact hdoomed id
  · simp only [Function.update_apply]
    split_ifs
    · simp
    · exact hreceiving hc id

/-- Where `stop` waits for the accept loop, that can end. -/
lemma Inv.canReturn_of_joiningAccept (h : s.Inv) (hstop : s.stop = .joiningAccept)
    (hdoomed : ∀ id, (s.loops id).doomed = false) (hsession : ¬s.NoSession)
    (haccepting : clients = false → s.accept ≠ .accepting)
    (hreceiving : clients = false → ∀ id, s.loops id ≠ .receiving) : s.CanReturn clients := by
  cases haccept : s.accept with
  | ended => exact h.canReturn_of_ended hstop haccept hdoomed hreceiving
  | terminated => exact absurd (Or.inl haccept) hsession
  | calling =>
    have hrunning := h.running_eq_false (by simp [hstop])
    apply CanReturn.of_act .callAccept fun _ => rfl
    have hinv := h.act .callAccept
    rw [AcceptorThreads.act, if_pos haccept] at hinv ⊢
    exact hinv.canReturn_of_ended hstop (by simp [hrunning]) hdoomed hreceiving
  | accepting =>
    have hmem : s.nextSessionId ∉ s.sessions :=
      fun hmem => hsession (Or.inr ⟨Or.inl haccept, hmem⟩)
    apply CanReturn.of_act .accepted fun hc => absurd haccept (haccepting hc)
    have hinv := h.act .accepted
    rw [AcceptorThreads.act, if_pos haccept] at hinv ⊢
    exact hinv.canReturn_of_registering hstop rfl hmem hdoomed hreceiving
  | registering =>
    have hmem : s.nextSessionId ∉ s.sessions :=
      fun hmem => hsession (Or.inr ⟨Or.inr haccept, hmem⟩)
    exact h.canReturn_of_registering hstop haccept hmem hdoomed hreceiving

/-- `stop` can return exactly if it is not stuck, and without the clients if it does not wait for
one. -/
lemma Inv.canReturn_iff (h : s.Inv) :
    s.CanReturn clients ↔ ¬s.Stuck ∧ (clients = false → ¬s.Waits) := by
  constructor
  · refine fun hreturns => ⟨fun hs => hs.not_canReturn h clients hreturns, ?_⟩
    rintro rfl hw
    exact hw.not_canReturn h hreturns
  rintro ⟨hs, hw⟩
  by_cases hreturned : s.stop = .returned
  · exact ⟨[], fun _ => List.forall_mem_nil _, hreturned⟩
  have hdoomed (id : ℕ) : (s.loops id).doomed = false := by
    by_contra hne
    exact hs ⟨hreturned, Or.inl ⟨id, by simpa using hne⟩⟩
  have hsession : ¬s.NoSession := fun hnone => hs ⟨hreturned, Or.inr (Or.inl hnone)⟩
  have haccepting (hc : clients = false) : s.accept ≠ .accepting :=
    fun haccept => hw hc ⟨hreturned, Or.inl haccept⟩
  have hreceiving (hc : clients = false) (id : ℕ) : s.loops id ≠ .receiving :=
    fun hid => hw hc ⟨hreturned, Or.inr ⟨id, hid⟩⟩
  cases hstop : s.stop with
  | notCalled =>
    apply CanReturn.of_act .callStop fun _ => rfl
    have hinv := h.act .callStop
    rw [AcceptorThreads.act, if_pos hstop] at hinv ⊢
    exact hinv.canReturn_of_joiningAccept rfl hdoomed hsession haccepting hreceiving
  | joiningAccept =>
    exact h.canReturn_of_joiningAccept hstop hdoomed hsession haccepting hreceiving
  | locking => exact h.canReturn_of_locking hstop hdoomed hreceiving
  | joining rest =>
    apply canReturn_of_joining hstop
    intro id hmem
    by_contra hne
    exact hs ⟨hreturned, Or.inr (Or.inr ⟨rest, hstop, id, hmem, hne⟩)⟩
  | returned => exact absurd hstop hreturned

end

/-- In every state of every run, `stop` can still return exactly if it is not stuck: no handler
hangs or is going to, there is a session for the client that is awaited, and `stop` does not hold
the mutex while a receive loop that it joins has not ended. Without anything that a client does, it
can return exactly if moreover no thread waits in `accept` or `recv`. -/
theorem run_canReturn_iff (actions : List ThreadAction) :
    Machine.Throughout step
      (fun s => ∀ clients, s.CanReturn clients ↔ ¬s.Stuck ∧ (clients = false → ¬s.Waits))
      start actions := by
  have hinv : Machine.Throughout step Inv start actions :=
    Machine.throughout_of_along (C := fun _ _ => True) (fun s action _ h => h.act action)
      (Machine.along_of_forall (A := fun _ => True) (by simp)) inv_start
  exact hinv.mono fun s h clients => h.canReturn_iff

/-- A client that is connected when `stop` takes the mutex. -/
example : (Machine.run step start [.callAccept, .accepted, .register, .begin 100, .callStop,
    .callAccept, .joinAccept, .lock, .gone 100, .leave 100, .join]).1.stop = .joining [100] := by
  decide

end AcceptorThreads

end EuNEx
