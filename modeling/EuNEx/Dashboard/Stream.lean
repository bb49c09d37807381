import EuNEx.Lib.Machine
import Mathlib.Data.List.Nodup
import Mathlib.Data.List.TakeWhile
import Mathlib.Logic.Function.Basic

/-!
# Server-sent events

`broadcast_event` and `stream` of `dashboard/app.py`; `broadcast` and `sse_stream` of
`clearing_house/app.py` differ from them in the length of a queue only. The threads share the list
of the queues without a lock: an append, a `put_nowait` or a `pop` is one step, and so is each turn
of a loop, which goes by the index. A queue has the number of its client.
-/

namespace EuNEx.Dashboard

variable {ι M : Type*}

/-- Where a thread stands in `broadcast_event`. -/
inductive Broadcast (M : Type*) where
  | idle
  /-- the loop asks for the queue at this index; those at the indices in `dead` were full -/
  | looping (msg : M) (index : ℕ) (dead : List ℕ)
  /-- the loop has the queue -/
  | putting (msg : M) (index client : ℕ) (dead : List ℕ)
  /-- these indices are still to be popped -/
  | popping (dead : List ℕ)
deriving DecidableEq, Repr

/-- A generator of `stream`. In `closing` it has found its queue in the list. One that does not
exist counts as closed. -/
inductive Generator where
  | created
  | started
  | closing
  | closed
deriving DecidableEq, Repr

/-- The queues, the generators and the threads that broadcast. -/
structure Streams (ι M : Type*) where
  sseClients : List ℕ := []
  queues : ℕ → List M := fun _ => []
  generators : ℕ → Generator := fun _ => .closed
  nextClient : ℕ := 0
  threads : ι → Broadcast M := fun _ => .idle

/-- What happens. -/
inductive StreamInput (ι M : Type*) where
  /-- a request for `/stream` -/
  | connect
  /-- a thread calls `broadcast_event` -/
  | broadcast (thread : ι) (msg : M)
  /-- the next step of it -/
  | next (thread : ι)
  /-- the generator of a client goes on: it gets a message, or a ping after half a minute -/
  | receive (client : ℕ)
  /-- the client is gone: `GeneratorExit`, if the generator was started, up to the `in` -/
  | exit (client : ℕ)
  /-- the `remove` -/
  | remove (client : ℕ)
deriving DecidableEq, Repr

/-- What has been done. -/
inductive StreamEvent (ι M : Type*) where
  | connected (client : ℕ)
  | broadcast (thread : ι) (msg : M)
  | put (thread : ι) (client : ℕ) (msg : M)
  | full (thread : ι) (client : ℕ)
  | dropped (thread : ι) (client : ℕ)
  /-- an `IndexError` of `pop`, in the thread that broadcasts -/
  | failed (thread : ι)
  | received (client : ℕ) (msg : M)
  | pinged (client : ℕ)
deriving DecidableEq, Repr

namespace Streams

section

variable [DecidableEq ι] (maxsize : ℕ) (s : Streams ι M)

/-- The thread goes on here. -/
def goOn (thread : ι) (call : Broadcast M) : Streams ι M :=
  { s with threads := Function.update s.threads thread call }

/-- The next step of `broadcast_event`. -/
def next (thread : ι) : Streams ι M × List (StreamEvent ι M) :=
  match s.threads thread with
  | .idle => (s, [])
  | .looping msg index dead =>
    match s.sseClients[index]? with
    | some client => (s.goOn thread (.putting msg index client dead), [])
    | none => (s.goOn thread (.popping dead.reverse), [])
  | .putting msg index client dead =>
    if (s.queues client).length < maxsize then
      let queues := Function.update s.queues client (s.queues client ++ [msg])
      ({ s with queues }.goOn thread (.looping msg (index + 1) dead), [.put thread client msg])
    else (s.goOn thread (.looping msg (index + 1) (dead ++ [index])), [.full thread client])
  | .popping [] => (s.goOn thread .idle, [])
  | .popping (index :: dead) =>
    match s.sseClients[index]? with
    | some client =>
      ({ s with sseClients := s.sseClients.eraseIdx index }.goOn thread (.popping dead),
        [.dropped thread client])
    | none => (s.goOn thread .idle, [.failed thread])

/-- The generator of a client goes on. -/
def receive (client : ℕ) : Streams ι M × List (StreamEvent ι M) :=
  let generators := Function.update s.generators client .started
  match s.queues client with
  | [] => ({ s with generators }, [.pinged client])
  | msg :: queue =>
    ({ s with generators, queues := Function.update s.queues client queue },
      [.received client msg])

/-- A step. Nothing happens where a thread or a generator is elsewhere. -/
def step : StreamInput ι M → Streams ι M × List (StreamEvent ι M)
  | .connect =>
    ({ s with
        sseClients := s.sseClients ++ [s.nextClient]
        generators := Function.update s.generators s.nextClient .created
        nextClient := s.nextClient + 1 }, [.connected s.nextClient])
  | .broadcast thread msg =>
    match s.threads thread with
    | .idle => (s.goOn thread (.looping msg 0 []), [.broadcast thread msg])
    | _ => (s, [])
  | .next thread => s.next maxsize thread
  | .receive client =>
    match s.generators client with
    | .created | .started => s.receive client
    | _ => (s, [])
  | .exit client =>
    match s.generators client with
    | .created => ({ s with generators := Function.update s.generators client .closed }, [])
    | .started =>
      let generator := if client ∈ s.sseClients then Generator.closing else .closed
      ({ s with generators := Function.update s.generators client generator }, [])
    | _ => (s, [])
  | .remove client =>
    match s.generators client with
    -- a `ValueError` if another thread has popped the queue since, and the list stays as it is
    | .closing =>
      ({ s with
          sseClients := s.sseClients.erase client
          generators := Function.update s.generators client .closed }, [])
    | _ => (s, [])

/-- The list of the queues gets shorter only while no other thread is in `broadcast_event`. -/
def Quiet : StreamInput ι M → Prop
  | .next thread => ∀ index dead, s.threads thread = .popping (index :: dead) →
      ∀ i, i ≠ thread → s.threads i = .idle
  | .remove _ => ∀ i, s.threads i = .idle
  | _ => True

end

end Streams

/-! ### What should hold -/

namespace StreamEvent

section

variable [DecidableEq ι] (thread : ι) (client : ℕ)

/-- The messages that a thread has broadcast. -/
def broadcasts (h : List (StreamEvent ι M)) : List M :=
  h.filterMap fun
    | .broadcast i msg => if i = thread then some msg else none
    | _ => none

/-- The messages that a thread has put into the queue of a client. -/
def putsBy (h : List (StreamEvent ι M)) : List M :=
  h.filterMap fun
    | .put i c msg => if i = thread ∧ c = client then some msg else none
    | _ => none

end

variable (client : ℕ)

/-- All messages that have been put into the queue of a client. -/
def puts (h : List (StreamEvent ι M)) : List M :=
  h.filterMap fun
    | .put _ c msg => if c = client then some msg else none
    | _ => none

/-- The messages that a client has received. -/
def receipts (h : List (StreamEvent ι M)) : List M :=
  h.filterMap fun
    | .received c msg => if c = client then some msg else none
    | _ => none

/-- It is the event of the client's connection. -/
def connects : StreamEvent ι M → Bool
  | .connected c => c = client
  | _ => false

/-- What has happened since the client connected. -/
def since (h : List (StreamEvent ι M)) : List (StreamEvent ι M) :=
  h.dropWhile fun e => !e.connects client

end StreamEvent

open StreamEvent

namespace Streams

section

variable [DecidableEq ι]

/-- In every interleaving, a queue holds what its client has not received yet, in order, and a
thread puts each message at most once into it, in the order of its calls. A client is behind by a
full queue whenever a thread finds its queue full. -/
structure Sound (maxsize : ℕ) (s : Streams ι M) (h : List (StreamEvent ι M)) : Prop where
  queues : ∀ client, puts client h = receipts client h ++ s.queues client
  bounded : ∀ client, (s.queues client).length ≤ maxsize
  once : ∀ thread client, (putsBy thread client h).Sublist (broadcasts thread h)
  full : Machine.Always (fun pre e => ∀ thread client, e = .full thread client →
    (puts client pre).length = (receipts client pre).length + maxsize) h

/-- No thread has failed and a client that was dropped had a full queue. A client whose queue is in
the list has been sent, by each thread that is not in `broadcast_event`, all that the thread has
broadcast since the client connected, and before that at most what it was just broadcasting. -/
structure Complete (s : Streams ι M) (h : List (StreamEvent ι M)) : Prop where
  notFailed : ∀ thread, .failed thread ∉ h
  dropped : ∀ thread client, .dropped thread client ∈ h → .full thread client ∈ h
  reached : ∀ thread, s.threads thread = .idle → ∀ client ∈ s.sseClients,
    broadcasts thread (since client h) <:+ putsBy thread client h ∧
      putsBy thread client h <:+ broadcasts thread h

end

end Streams

/-! ### The history -/

section

variable [DecidableEq ι] {h k : List (StreamEvent ι M)} {thread : ι} {client : ℕ}

namespace StreamEvent

@[simp] lemma broadcasts_append :
    broadcasts thread (h ++ k) = broadcasts thread h ++ broadcasts thread k :=
  List.filterMap_append ..

@[simp] lemma putsBy_append :
    putsBy thread client (h ++ k) = putsBy thread client h ++ putsBy thread client k :=
  List.filterMap_append ..

omit [DecidableEq ι] in
@[simp] lemma puts_append : puts client (h ++ k) = puts client h ++ puts client k :=
  List.filterMap_append ..

omit [DecidableEq ι] in
@[simp] lemma receipts_append :
    receipts client (h ++ k) = receipts client h ++ receipts client k :=
  List.filterMap_append ..

omit [DecidableEq ι] in
/-- What comes after the connection of a client. -/
lemma since_append (hc : .connected client ∈ h) : since client (h ++ k) = since client h ++ k := by
  rw [since, since, List.dropWhile_append, if_neg]
  intro hempty
  have hne := List.dropWhile_eq_nil_iff.mp (List.isEmpty_iff.mp hempty) _ hc
  simp [connects] at hne

omit [DecidableEq ι] in
lemma since_append_connected (hc : .connected client ∉ h) :
    since client (h ++ [.connected client]) = [.connected client] := by
  rw [since, List.dropWhile_append_of_pos]
  · simp [connects]
  · intro e he
    cases e <;> simp_all [connects]
    rintro rfl
    exact hc he

end StreamEvent

end

namespace Streams

/-! ### Steps -/

/-- What a step can do. The list gets shorter where it `drops` or `removes`, with no other thread in
`broadcast_event` if the step is `quiet`. -/
inductive Moves [DecidableEq ι] (maxsize : ℕ) (s : Streams ι M) (quiet : Prop) :
    Streams ι M → List (StreamEvent ι M) → Prop
  | rests (generators : ℕ → Generator) : Moves maxsize s quiet { s with generators } []
  | pings (generators : ℕ → Generator) (client : ℕ) :
      Moves maxsize s quiet { s with generators } [.pinged client]
  | connects (generators : ℕ → Generator) : Moves maxsize s quiet
      { s with
          sseClients := s.sseClients ++ [s.nextClient], generators
          nextClient := s.nextClient + 1 } [.connected s.nextClient]
  | receives (generators : ℕ → Generator) {client : ℕ} {msg : M} {queue : List M}
      (hqueue : s.queues client = msg :: queue) : Moves maxsize s quiet
      { s with generators, queues := Function.update s.queues client queue }
      [.received client msg]
  | broadcasts {thread : ι} (msg : M) (ht : s.threads thread = .idle) :
      Moves maxsize s quiet (s.goOn thread (.looping msg 0 [])) [.broadcast thread msg]
  | asks {thread : ι} {msg : M} {index client : ℕ} {dead : List ℕ}
      (ht : s.threads thread = .looping msg index dead)
      (hclient : s.sseClients[index]? = some client) :
      Moves maxsize s quiet (s.goOn thread (.putting msg index client dead)) []
  | ends {thread : ι} {msg : M} {index : ℕ} {dead : List ℕ}
      (ht : s.threads thread = .looping msg index dead) (hend : s.sseClients[index]? = none) :
      Moves maxsize s quiet (s.goOn thread (.popping dead.reverse)) []
  | puts {thread : ι} {msg : M} {index client : ℕ} {dead : List ℕ}
      (ht : s.threads thread = .putting msg index client dead)
      (hfull : (s.queues client).length < maxsize) : Moves maxsize s quiet
      ({ s with queues := Function.update s.queues client (s.queues client ++ [msg]) }.goOn
        thread (.looping msg (index + 1) dead)) [.put thread client msg]
  | skips {thread : ι} {msg : M} {index client : ℕ} {dead : List ℕ}
      (ht : s.threads thread = .putting msg index client dead)
      (hfull : ¬(s.queues client).length < maxsize) : Moves maxsize s quiet
      (s.goOn thread (.looping msg (index + 1) (dead ++ [index]))) [.full thread client]
  | returns {thread : ι} (ht : s.threads thread = .popping []) :
      Moves maxsize s quiet (s.goOn thread .idle) []
  | drops {thread : ι} {index client : ℕ} {dead : List ℕ}
      (ht : s.threads thread = .popping (index :: dead))
      (hclient : s.sseClients[index]? = some client)
      (hquiet : quiet → ∀ i, i ≠ thread → s.threads i = .idle) : Moves maxsize s quiet
      ({ s with sseClients := s.sseClients.eraseIdx index }.goOn thread (.popping dead))
      [.dropped thread client]
  | fails {thread : ι} {index : ℕ} {dead : List ℕ}
      (ht : s.threads thread = .popping (index :: dead)) (hend : s.sseClients[index]? = none) :
      Moves maxsize s quiet (s.goOn thread .idle) [.failed thread]
  | removes (generators : ℕ → Generator) (client : ℕ) (hquiet : quiet → ∀ i, s.threads i = .idle) :
      Moves maxsize s quiet { s with sseClients := s.sseClients.erase client, generators } []

section

variable [DecidableEq ι] {s s' : Streams ι M} {maxsize : ℕ} {thread i : ι} {call : Broadcast M}

lemma moves_next : Moves maxsize s (s.Quiet (.next thread)) (s.next maxsize thread).1
    (s.next maxsize thread).2 := by
  rw [next]
  split
  case h_1 => exact .rests _
  case h_2 msg index dead ht =>
    split
    · exact .asks ht ‹_›
    · exact .ends ht ‹_›
  case h_3 msg index client dead ht =>
    split
    · exact .puts ht ‹_›
    · exact .skips ht ‹_›
  case h_4 ht => exact .returns ht
  case h_5 index dead ht =>
    split
    · exact .drops ht ‹_› fun hquiet => hquiet index dead ht
    · exact .fails ht ‹_›

lemma moves_receive {quiet : Prop} {client : ℕ} :
    Moves maxsize s quiet (s.receive client).1 (s.receive client).2 := by
  rw [receive]
  split
  · exact .pings _ _
  · exact .receives _ ‹_›

theorem moves_step (input : StreamInput ι M) :
    Moves maxsize s (s.Quiet input) (s.step maxsize input).1 (s.step maxsize input).2 := by
  cases input with
  | connect => exact .connects _
  | broadcast thread msg =>
    simp only [step]
    split
    · exact .broadcasts msg ‹_›
    · exact .rests s.generators
  | next thread => exact moves_next
  | receive client =>
    simp only [step]
    split
    · exact moves_receive
    · exact moves_receive
    · exact .rests s.generators
  | exit client =>
    simp only [step]
    split <;> exact .rests _
  | remove client =>
    simp only [step]
    split
    · exact .removes _ client id
    · exact .rests s.generators

lemma goOn_self : (s.goOn thread call).threads thread = call := Function.update_self ..

lemma goOn_of_ne (hi : i ≠ thread) : (s.goOn thread call).threads i = s.threads i :=
  Function.update_of_ne hi ..

@[simp] lemma goOn_sseClients : (s.goOn thread call).sseClients = s.sseClients := rfl

@[simp] lemma goOn_queues : (s.goOn thread call).queues = s.queues := rfl

@[simp] lemma goOn_nextClient : (s.goOn thread call).nextClient = s.nextClient := rfl

end

/-! ### Every interleaving -/

/-- The list has different clients, which have their numbers, and a loop does not come back to the
queue that it has. -/
structure Slots (s : Streams ι M) : Prop where
  nodup : s.sseClients.Nodup
  known : ∀ client ∈ s.sseClients, client < s.nextClient
  held : ∀ thread msg index client dead, s.threads thread = .putting msg index client dead →
    client < s.nextClient ∧ client ∉ s.sseClients.drop (index + 1)

/-- The loop of a thread can still come to the queue of this client. -/
def Due (s : Streams ι M) (thread : ι) (client : ℕ) (msg : M) : Prop :=
  match s.threads thread with
  | .looping m index _ => m = msg ∧ (client ∈ s.sseClients.drop index ∨ s.nextClient ≤ client)
  | .putting m index c _ =>
    m = msg ∧ (client = c ∨ client ∈ s.sseClients.drop (index + 1) ∨ s.nextClient ≤ client)
  | _ => False

/-- Behind an index there are the clients that were there, or clients that are new. -/
structure Follows (s s' : Streams ι M) : Prop where
  drop : ∀ index, ∀ client ∈ s'.sseClients.drop index,
    client ∈ s.sseClients.drop index ∨ s.nextClient ≤ client
  nextClient : s.nextClient ≤ s'.nextClient

section

variable {s s' : Streams ι M} {thread : ι} {client index : ℕ} {msg : M} {dead : List ℕ}

lemma Follows.of_sublist (hclients : s'.sseClients.Sublist s.sseClients)
    (hnext : s'.nextClient = s.nextClient) : s.Follows s' :=
  ⟨fun index _ hc => Or.inl ((hclients.drop index).subset hc), hnext.ge⟩

lemma Follows.of_connected (hclients : s'.sseClients = s.sseClients ++ [s.nextClient])
    (hnext : s'.nextClient = s.nextClient + 1) : s.Follows s' := by
  refine ⟨fun index client hc => ?_, by omega⟩
  rw [hclients, List.drop_append, List.mem_append] at hc
  apply hc.imp_right
  intro hc
  exact (List.mem_singleton.mp (List.mem_of_mem_drop hc)).ge

/-- What a thread that stays where it is can still come to. -/
lemma Follows.due (hf : s.Follows s') (ht : s'.threads thread = s.threads thread)
    (hdue : s'.Due thread client msg) : s.Due thread client msg := by
  have hback : ∀ index, client ∈ s'.sseClients.drop index ∨ s'.nextClient ≤ client →
      client ∈ s.sseClients.drop index ∨ s.nextClient ≤ client := by
    rintro index (hc | hc)
    · exact hf.drop index client hc
    · exact Or.inr (hf.nextClient.trans hc)
  rw [Due, ht] at hdue
  rw [Due]
  cases hcall : s.threads thread with
  | idle | popping => rwa [hcall] at hdue
  | looping m index dead =>
    rw [hcall] at hdue
    exact hdue.imp_right (hback index)
  | putting m index c dead =>
    rw [hcall] at hdue
    exact hdue.imp_right fun hc => hc.imp_right (hback (index + 1))

lemma mem_drop (hclient : s.sseClients[index]? = some client) :
    client ∈ s.sseClients.drop index := by
  obtain ⟨hlt, rfl⟩ := List.getElem?_eq_some_iff.mp hclient
  rw [List.drop_eq_getElem_cons hlt]
  exact List.mem_cons_self

lemma Slots.not_mem_drop (h : s.Slots) (hclient : s.sseClients[index]? = some client) :
    client ∉ s.sseClients.drop (index + 1) := by
  obtain ⟨hlt, rfl⟩ := List.getElem?_eq_some_iff.mp hclient
  have hnodup := h.nodup.sublist (List.drop_sublist index _)
  rw [List.drop_eq_getElem_cons hlt] at hnodup
  exact (List.nodup_cons.mp hnodup).1

lemma Slots.of_follows (h : s.Slots) (hf : s.Follows s') (hnodup : s'.sseClients.Nodup)
    (hknown : ∀ client ∈ s'.sseClients, client < s'.nextClient)
    (ht : ∀ thread msg index client dead, s'.threads thread = .putting msg index client dead →
      s.threads thread = .putting msg index client dead ∨
        s'.sseClients = s.sseClients ∧ s.sseClients[index]? = some client) : s'.Slots where
  nodup := hnodup
  known := hknown
  held thread msg index client dead hcall := by
    rcases ht thread msg index client dead hcall with hcall | ⟨heq, hclient⟩
    · obtain ⟨hlt, hnot⟩ := h.held thread msg index client dead hcall
      refine ⟨hlt.trans_le hf.nextClient, fun hc => ?_⟩
      rcases hf.drop _ _ hc with hc | hc
      · exact hnot hc
      · omega
    · have hlt := h.known client (List.mem_of_getElem? hclient)
      refine ⟨hlt.trans_le hf.nextClient, ?_⟩
      rw [heq]
      exact h.not_mem_drop hclient

variable [DecidableEq ι] {maxsize : ℕ} {quiet : Prop} {h e : List (StreamEvent ι M)}

omit [DecidableEq ι] in
/-- A step that leaves the list as it is. -/
lemma Slots.of_eq (h : s.Slots) (hclients : s'.sseClients = s.sseClients)
    (hnext : s'.nextClient = s.nextClient)
    (ht : ∀ thread msg index client dead, s'.threads thread = .putting msg index client dead →
      s.threads thread = .putting msg index client dead ∨ s.sseClients[index]? = some client) :
    s'.Slots := by
  have hf : s.Follows s' := .of_sublist (hclients ▸ List.Sublist.refl _) hnext
  refine h.of_follows hf (hclients ▸ h.nodup) ?_ ?_
  · rw [hclients, hnext]
    exact h.known
  · intro thread msg index client dead hcall
    exact (ht thread msg index client dead hcall).imp_right fun hc => ⟨hclients, hc⟩

omit [DecidableEq ι] in
/-- A step that leaves out a client of the list. -/
lemma Slots.of_sublist (h : s.Slots) (hclients : s'.sseClients.Sublist s.sseClients)
    (hnext : s'.nextClient = s.nextClient)
    (ht : ∀ thread msg index client dead, s'.threads thread = .putting msg index client dead →
      s.threads thread = .putting msg index client dead) : s'.Slots := by
  refine h.of_follows (.of_sublist hclients hnext) (h.nodup.sublist hclients) ?_ ?_
  · intro client hc
    rw [hnext]
    exact h.known client (hclients.subset hc)
  · intro thread msg index client dead hcall
    exact Or.inl (ht thread msg index client dead hcall)

/-- A thread that goes on somewhere else than with a queue. -/
lemma putting_of_goOn {t : ι} {call : Broadcast M} {c : ℕ}
    (hcall : ∀ msg index client dead, call ≠ .putting msg index client dead)
    (ht : (s.goOn thread call).threads t = .putting msg index c dead) :
    s.threads t = .putting msg index c dead := by
  by_cases heq : t = thread
  · rw [heq, goOn_self] at ht
    exact (hcall _ _ _ _ ht).elim
  · rwa [goOn_of_ne heq] at ht

theorem Slots.moves (hs : s.Slots) (hm : Moves maxsize s quiet s' e) : s'.Slots := by
  cases hm with
  | rests | pings | receives => exact hs.of_eq rfl rfl fun _ _ _ _ _ => Or.inl
  | connects =>
    refine hs.of_follows (.of_connected rfl rfl) ?_ ?_ fun _ _ _ _ _ => Or.inl
    · apply List.Nodup.append hs.nodup (List.nodup_singleton _)
      rw [List.disjoint_singleton]
      exact fun hc => (hs.known _ hc).ne rfl
    · intro client hc
      rcases List.mem_append.mp hc with hc | hc
      · exact (hs.known client hc).trans (Nat.lt_succ_self _)
      · exact List.mem_singleton.mp hc ▸ Nat.lt_succ_self _
  | broadcasts | ends | skips | returns | fails | puts =>
    exact hs.of_eq rfl rfl fun _ _ _ _ _ ht => Or.inl (putting_of_goOn (by simp) ht)
  | @asks thread msg index client dead ht hclient =>
    refine hs.of_eq rfl rfl fun t _ _ _ _ htp => ?_
    by_cases heq : t = thread
    · rw [heq, goOn_self, Broadcast.putting.injEq] at htp
      obtain ⟨-, rfl, rfl, -⟩ := htp
      exact Or.inr hclient
    · rw [goOn_of_ne heq] at htp
      exact Or.inl htp
  | drops =>
    exact hs.of_sublist (List.eraseIdx_sublist ..) rfl fun _ _ _ _ _ => putting_of_goOn (by simp)
  | removes => exact hs.of_sublist List.erase_sublist rfl fun _ _ _ _ _ => id

/-- A thread has put into a queue a part of what it has broadcast, and what its loop can still put
there comes next. -/
def Once (s : Streams ι M) (h : List (StreamEvent ι M)) (thread : ι) (client : ℕ) : Prop :=
  (putsBy thread client h).Sublist (broadcasts thread h) ∧
    ∀ msg, s.Due thread client msg →
      (putsBy thread client h ++ [msg]).Sublist (broadcasts thread h)

lemma Once.of_due (hs : s.Once h thread client) (hp : putsBy thread client e = [])
    (hb : broadcasts thread e = [])
    (hdue : ∀ msg, s'.Due thread client msg → s.Due thread client msg) :
    s'.Once (h ++ e) thread client := by
  rw [Once, putsBy_append, broadcasts_append, hp, hb, List.append_nil, List.append_nil]
  exact ⟨hs.1, fun msg hd => hs.2 msg (hdue msg hd)⟩

/-- The threads that stay where they are. -/
lemma once_of_thread {t : ι} {c : ℕ} (hs : ∀ t c, s.Once h t c) (hf : s.Follows s')
    (ht : ∀ t, t ≠ thread → s'.threads t = s.threads t)
    (he : ∀ t, t ≠ thread → ∀ c, putsBy t c e = [] ∧ broadcasts t e = [])
    (hthread : ∀ c, s'.Once (h ++ e) thread c) : s'.Once (h ++ e) t c := by
  by_cases heq : t = thread
  · exact heq ▸ hthread c
  · exact (hs t c).of_due (he t heq c).1 (he t heq c).2 fun _ => hf.due (ht t heq)

/-- A step of one thread in which nothing is put. -/
lemma once_goOn {t : ι} {c : ℕ} {call : Broadcast M} (hs : ∀ t c, s.Once h t c)
    (he : ∀ t c, putsBy t c e = [] ∧ broadcasts t e = [])
    (hdue : ∀ c m, (s.goOn thread call).Due thread c m → s.Due thread c m) :
    (s.goOn thread call).Once (h ++ e) t c := by
  refine once_of_thread hs (.of_sublist (List.Sublist.refl _) rfl) (fun _ => goOn_of_ne)
    (fun t _ => he t) fun c => ?_
  exact (hs thread c).of_due (he thread c).1 (he thread c).2 (hdue c)

theorem Once.moves (hs : ∀ t c, s.Once h t c) (hslots : s.Slots)
    (hm : Moves maxsize s quiet s' e) (t : ι) (c : ℕ) : s'.Once (h ++ e) t c := by
  cases hm with
  | rests | pings | receives => exact (hs t c).of_due rfl rfl fun _ => id
  | connects => exact (hs t c).of_due rfl rfl fun _ => Follows.due (.of_connected rfl rfl) rfl
  | @broadcasts thread msg ht =>
    refine once_of_thread hs (.of_sublist (List.Sublist.refl _) rfl) (fun _ => goOn_of_ne)
      (fun t hne c => ?_) fun c => ?_
    · simp [putsBy, broadcasts, hne.symm]
    · have hp : putsBy thread c [.broadcast thread msg] = [] := rfl
      have hb : broadcasts thread [.broadcast thread msg] = [msg] := by simp [broadcasts]
      rw [Once, putsBy_append, broadcasts_append, hp, hb, List.append_nil]
      refine ⟨(hs thread c).1.trans (List.sublist_append_left ..), fun m hd => ?_⟩
      rw [Due, goOn_self] at hd
      rw [hd.1]
      exact (hs thread c).1.append (List.Sublist.refl _)
  | @asks thread msg index client dead ht hclient =>
    refine once_goOn hs (fun _ _ => ⟨rfl, rfl⟩) fun c m hd => ?_
    rw [Due, goOn_self] at hd
    rw [Due, ht]
    refine hd.imp_right ?_
    rintro (rfl | hc | hc)
    · exact Or.inl (mem_drop hclient)
    · exact Or.inl (List.drop_subset_drop_left _ (Nat.le_succ _) hc)
    · exact Or.inr hc
  | ends | returns | fails =>
    refine once_goOn hs (fun _ _ => ⟨rfl, rfl⟩) fun c m hd => ?_
    rw [Due, goOn_self] at hd
    exact hd.elim
  | @puts thread msg index client dead ht hfull =>
    refine once_of_thread hs (.of_sublist (List.Sublist.refl _) rfl) (fun _ => goOn_of_ne)
      (fun t hne c => ?_) fun c => ?_
    · simp [putsBy, broadcasts, hne.symm]
    · have hb : broadcasts thread [.put thread client msg] = [] := rfl
      by_cases hc : client = c
      · -- the queue that the loop has: it does not come back to it
        subst hc
        have hp : putsBy thread client [.put thread client msg] = [msg] := by simp [putsBy]
        obtain ⟨hlt, hnot⟩ := hslots.held thread msg index client dead ht
        rw [Once, putsBy_append, broadcasts_append, hp, hb, List.append_nil]
        refine ⟨(hs thread client).2 msg ?_, fun m hd => ?_⟩
        · rw [Due, ht]
          exact ⟨rfl, Or.inl rfl⟩
        · rw [Due, goOn_self] at hd
          exact (hd.2.elim hnot hlt.not_ge).elim
      · apply (hs thread c).of_due (by simp [putsBy, hc]) hb
        intro m hd
        rw [Due, goOn_self] at hd
        rw [Due, ht]
        exact hd.imp_right Or.inr
  | skips ht =>
    refine once_goOn hs (fun _ _ => ⟨rfl, rfl⟩) fun c m hd => ?_
    rw [Due, goOn_self] at hd
    rw [Due, ht]
    exact hd.imp_right Or.inr
  | @drops thread index client dead ht hclient =>
    refine once_of_thread hs (.of_sublist (List.eraseIdx_sublist ..) rfl) (fun _ => goOn_of_ne)
      (fun _ _ _ => ⟨rfl, rfl⟩) fun c => ?_
    apply (hs thread c).of_due rfl rfl
    intro m hd
    rw [Due, goOn_self] at hd
    exact hd.elim
  | removes =>
    exact (hs t c).of_due rfl rfl fun _ =>
      Follows.due (.of_sublist List.erase_sublist rfl) rfl

theorem Sound.moves (hs : s.Sound maxsize h) (honce : ∀ t c, s'.Once (h ++ e) t c)
    (hm : Moves maxsize s quiet s' e) : s'.Sound maxsize (h ++ e) := by
  have hqueues : (∀ c, puts c e = [] ∧ receipts c e = [] ∧ s'.queues c = s.queues c) →
      (∀ thread client, .full thread client ∉ e) → s'.Sound maxsize (h ++ e) := by
    intro he hfull
    refine ⟨fun c => ?_, fun c => ?_, fun t c => (honce t c).1, ?_⟩
    · rw [puts_append, receipts_append, (he c).1, (he c).2.1, (he c).2.2, List.append_nil,
        List.append_nil]
      exact hs.queues c
    · rw [(he c).2.2]
      exact hs.bounded c
    · refine Machine.always_append.mpr ⟨hs.full, Machine.always_of_mem ?_⟩
      rintro x hx - - t c rfl
      exact absurd hx (hfull t c)
  cases hm with
  | rests | pings | connects | broadcasts | asks | ends | returns | drops | fails | removes =>
    exact hqueues (fun _ => ⟨rfl, rfl, rfl⟩) (by simp)
  | @receives generators client msg queue hqueue =>
    have hlength := hs.bounded client
    rw [hqueue] at hlength
    refine ⟨fun c => ?_, fun c => ?_, fun t c => (honce t c).1, ?_⟩
    · have hq := hs.queues c
      by_cases hc : c = client
      · subst hc
        simpa [puts, receipts, hqueue] using hq
      · simpa [puts, receipts, hc, Ne.symm hc] using hq
    · by_cases hc : c = client
      · subst hc
        simpa using (Nat.lt_succ_self _).le.trans hlength
      · simpa [hc] using hs.bounded c
    · exact Machine.always_snoc.mpr ⟨hs.full, by simp⟩
  | @puts thread msg index client dead ht hlt =>
    refine ⟨fun c => ?_, fun c => ?_, fun t c => (honce t c).1, ?_⟩
    · rw [puts_append, hs.queues c]
      by_cases hc : c = client
      · subst hc
        simp [puts, receipts]
      · simp [puts, receipts, hc, Ne.symm hc]
    · by_cases hc : c = client
      · subst hc
        simpa using Nat.succ_le_of_lt hlt
      · simpa [hc] using hs.bounded c
    · exact Machine.always_snoc.mpr ⟨hs.full, by simp⟩
  | @skips thread msg index client dead ht hfull =>
    refine ⟨fun c => ?_, hs.bounded, fun t c => (honce t c).1, ?_⟩
    · simpa [puts, receipts] using hs.queues c
    · refine Machine.always_snoc.mpr ⟨hs.full, ?_⟩
      intro t c heq
      obtain ⟨rfl, rfl⟩ := StreamEvent.full.inj heq
      have hlength := hs.bounded client
      rw [hs.queues client, List.length_append]
      omega

theorem sound_new : ({} : Streams ι M).Sound maxsize [] :=
  ⟨fun _ => rfl, fun _ => Nat.zero_le _, fun _ _ => List.Sublist.refl _, Machine.always_nil⟩

end

end Streams

/-! ### Quiet runs -/

namespace Broadcast

/-- The indices of the full queues, those that are still to be popped. -/
def dead : Broadcast M → List ℕ
  | .idle => []
  | .looping _ _ dead | .putting _ _ _ dead | .popping dead => dead

/-- The message that is still to be put into the queue at this index. -/
def owed (p : ℕ) : Broadcast M → List M
  | .looping msg index _ | .putting msg index _ _ => if index ≤ p then [msg] else []
  | .idle | .popping _ => []

/-- The indices are those of queues behind the loop, and they are popped from the last on. -/
def Ordered : Broadcast M → Prop
  | .idle => True
  | .looping _ index dead | .putting _ index _ dead =>
    dead.Pairwise (· < ·) ∧ ∀ d ∈ dead, d < index
  | .popping dead => dead.Pairwise (· > ·)

end Broadcast

section

variable [DecidableEq ι] {h e : List (StreamEvent ι M)} {thread : ι} {client : ℕ} {msg : M}
  {owed : List M}

/-- With the messages that are still to come, a thread has put into a queue what it has broadcast
since some time before the client connected. -/
def Sent (h : List (StreamEvent ι M)) (thread : ι) (client : ℕ) (owed : List M) : Prop :=
  broadcasts thread (since client h) <:+ putsBy thread client h ++ owed ∧
    putsBy thread client h ++ owed <:+ broadcasts thread h

lemma Sent.append (hs : Sent h thread client owed) (hc : .connected client ∈ h)
    (hb : broadcasts thread e = []) (hp : putsBy thread client e = []) :
    Sent (h ++ e) thread client owed := by
  rw [Sent, since_append hc, broadcasts_append, broadcasts_append, putsBy_append, hb, hp,
    List.append_nil, List.append_nil, List.append_nil]
  exact hs

lemma Sent.broadcast (hs : Sent h thread client []) (hc : .connected client ∈ h) :
    Sent (h ++ [.broadcast thread msg]) thread client [msg] := by
  have hb : broadcasts thread [.broadcast thread msg] = [msg] := by simp [broadcasts]
  have hp : putsBy thread client [.broadcast thread msg] = [] := rfl
  rw [Sent, List.append_nil] at hs
  rw [Sent, since_append hc, broadcasts_append, broadcasts_append, putsBy_append, hb, hp,
    List.append_nil, List.suffix_append_self_iff, List.suffix_append_self_iff]
  exact hs

lemma Sent.put (hs : Sent h thread client [msg]) (hc : .connected client ∈ h) :
    Sent (h ++ [.put thread client msg]) thread client [] := by
  have hb : broadcasts thread [.put thread client msg] = [] := rfl
  have hp : putsBy thread client [.put thread client msg] = [msg] := by simp [putsBy]
  rw [Sent, since_append hc, broadcasts_append, broadcasts_append, putsBy_append, hb, hp,
    List.append_nil, List.append_nil, List.append_nil]
  exact hs

/-- A client that connects has been sent nothing, and the message of a loop is still to come. -/
lemma sent_connected (hc : .connected client ∉ h) (hp : putsBy thread client h = [])
    (howed : owed <:+ broadcasts thread h) :
    Sent (h ++ [.connected client]) thread client owed := by
  have hb : broadcasts thread [(.connected client : StreamEvent ι M)] = [] := rfl
  have hpc : putsBy thread client [(.connected client : StreamEvent ι M)] = [] := rfl
  rw [Sent, since_append_connected hc, broadcasts_append, putsBy_append, hb, hp, hpc,
    List.append_nil, List.append_nil]
  exact ⟨List.nil_suffix, howed⟩

end

/-- A thread with this call has sent its messages to all clients but those that it is about to
drop. -/
structure Broadcast.Reaches [DecidableEq ι] (call : Broadcast M) (clients : List ℕ)
    (h : List (StreamEvent ι M)) (thread : ι) : Prop where
  ordered : call.Ordered
  bounded : ∀ d ∈ call.dead, d < clients.length
  full : ∀ d ∈ call.dead, ∀ client, clients[d]? = some client → .full thread client ∈ h
  atIndex : ∀ msg index client dead, call = .putting msg index client dead →
    clients[index]? = some client
  current : ∀ index, call.owed index <:+ broadcasts thread h
  sent : ∀ p client, clients[p]? = some client → p ∉ call.dead →
    Sent h thread client (call.owed p)

namespace Broadcast.Reaches

variable [DecidableEq ι] {call : Broadcast M} {clients clients' : List ℕ}
  {h e : List (StreamEvent ι M)} {thread : ι} {msg : M} {index client : ℕ} {dead : List ℕ}

/-- Nothing happens that is of the thread. -/
lemma append (hr : call.Reaches clients h thread) (hc : ∀ c ∈ clients, .connected c ∈ h)
    (hb : broadcasts thread e = []) (hp : ∀ c, putsBy thread c e = []) :
    call.Reaches clients (h ++ e) thread where
  ordered := hr.ordered
  bounded := hr.bounded
  full d hd c hclient := List.mem_append_left _ (hr.full d hd c hclient)
  atIndex := hr.atIndex
  current p := by
    rw [broadcasts_append, hb, List.append_nil]
    exact hr.current p
  sent p c hclient hdead :=
    (hr.sent p c hclient hdead).append (hc c (List.mem_of_getElem? hclient)) hb (hp c)

/-- A client connects. -/
lemma connect (hr : call.Reaches clients h thread) (hc : ∀ c ∈ clients, .connected c ∈ h)
    (hfresh : .connected client ∉ h) (hputs : putsBy thread client h = []) :
    call.Reaches (clients ++ [client]) (h ++ [.connected client]) thread where
  ordered := hr.ordered
  bounded d hd := by
    rw [List.length_append]
    exact (hr.bounded d hd).trans_le (Nat.le_add_right _ _)
  full d hd c hclient := by
    rw [List.getElem?_append_left (hr.bounded d hd)] at hclient
    exact List.mem_append_left _ (hr.full d hd c hclient)
  atIndex msg index c dead hcall := by
    have hclient := hr.atIndex msg index c dead hcall
    rw [List.getElem?_append_left (List.getElem?_eq_some_iff.mp hclient).1]
    exact hclient
  current p := by
    rw [broadcasts_append]
    exact (hr.current p).trans (by simp [broadcasts])
  sent p c hclient hdead := by
    rw [List.getElem?_append] at hclient
    split at hclient
    · exact (hr.sent p c hclient hdead).append (hc c (List.mem_of_getElem? hclient)) rfl rfl
    · obtain rfl := List.mem_singleton.mp (List.mem_of_getElem? hclient)
      exact sent_connected hfresh hputs (hr.current p)

/-- A thread that is not in `broadcast_event` does not care where in the list a client is. -/
lemma of_idle (hsent : ∀ c ∈ clients, Sent h thread c []) :
    (idle : Broadcast M).Reaches clients h thread where
  ordered := trivial
  bounded := by simp [Broadcast.dead]
  full := by simp [Broadcast.dead]
  atIndex := by simp
  current _ := List.nil_suffix
  sent _ c hclient _ := hsent c (List.mem_of_getElem? hclient)

lemma sent_of_mem (hr : (idle : Broadcast M).Reaches clients h thread) {c : ℕ}
    (hmem : c ∈ clients) : Sent h thread c [] := by
  obtain ⟨p, hp⟩ := List.mem_iff_getElem?.mp hmem
  exact hr.sent p c hp List.not_mem_nil

lemma broadcast (hr : (idle : Broadcast M).Reaches clients h thread)
    (hc : ∀ c ∈ clients, .connected c ∈ h) :
    (looping msg 0 []).Reaches clients (h ++ [.broadcast thread msg]) thread where
  ordered := ⟨.nil, by simp⟩
  bounded := by simp [Broadcast.dead]
  full := by simp [Broadcast.dead]
  atIndex := by simp
  current _ := by simp [Broadcast.owed, broadcasts]
  sent _ c hclient _ := by
    have hmem := List.mem_of_getElem? hclient
    exact (hr.sent_of_mem hmem).broadcast (hc c hmem)

lemma ask (hr : (looping msg index dead).Reaches clients h thread)
    (hclient : clients[index]? = some client) :
    (putting msg index client dead).Reaches clients h thread where
  ordered := hr.ordered
  bounded := hr.bounded
  full := hr.full
  atIndex := by
    rintro _ _ _ _ ⟨⟩
    exact hclient
  current := hr.current
  sent := hr.sent

lemma finish (hr : (looping msg index dead).Reaches clients h thread)
    (hend : clients[index]? = none) : (popping dead.reverse).Reaches clients h thread where
  ordered := List.pairwise_reverse.mpr hr.ordered.1
  bounded d hd := hr.bounded d (List.mem_reverse.mp hd)
  full d hd := hr.full d (List.mem_reverse.mp hd)
  atIndex := by simp
  current _ := List.nil_suffix
  sent p c hclient hdead := by
    have hlt := (List.getElem?_eq_some_iff.mp hclient).1
    have hle := List.getElem?_eq_none_iff.mp hend
    have hsent := hr.sent p c hclient fun hd => hdead (List.mem_reverse.mpr hd)
    rw [Broadcast.owed, if_neg (by omega)] at hsent
    exact hsent

/-- The message that is owed behind the queue that the loop has. -/
lemma owed_succ {p : ℕ} {dead' : List ℕ} (client : ℕ) (hp : p ≠ index) :
    (looping msg (index + 1) dead').owed p = (putting msg index client dead).owed p := by
  have hiff : index + 1 ≤ p ↔ index ≤ p := by omega
  exact if_congr hiff rfl rfl

lemma owed_self : (looping msg (index + 1) dead).owed index = [] :=
  if_neg (Nat.not_succ_le_self index)

lemma current_succ (hr : (putting msg index client dead).Reaches clients h thread)
    {dead' : List ℕ} (p : ℕ) :
    (looping msg (index + 1) dead').owed p <:+ broadcasts thread h := by
  by_cases hp : p = index
  · rw [hp, owed_self]
    exact List.nil_suffix
  · rw [owed_succ client hp]
    exact hr.current p

lemma put (hr : (putting msg index client dead).Reaches clients h thread)
    (hc : ∀ c ∈ clients, .connected c ∈ h) (hnodup : clients.Nodup) :
    (looping msg (index + 1) dead).Reaches clients (h ++ [.put thread client msg]) thread where
  ordered := ⟨hr.ordered.1, fun d hd => (hr.ordered.2 d hd).trans (Nat.lt_succ_self _)⟩
  bounded := hr.bounded
  full d hd c hclient := List.mem_append_left _ (hr.full d hd c hclient)
  atIndex := by simp
  current p := by
    rw [broadcasts_append]
    exact (hr.current_succ p).trans (by simp [broadcasts])
  sent p c hclient hdead := by
    have hindex := hr.atIndex msg index client dead rfl
    have hmem := hc c (List.mem_of_getElem? hclient)
    have hsent := hr.sent p c hclient hdead
    by_cases hp : p = index
    · subst hp
      obtain rfl : client = c := Option.some.inj (hindex.symm.trans hclient)
      rw [Broadcast.owed, if_pos le_rfl] at hsent
      rw [owed_self]
      exact hsent.put hmem
    · have hne : client ≠ c := by
        rintro rfl
        have hlt := (List.getElem?_eq_some_iff.mp hclient).1
        exact hp ((List.getElem?_inj hlt hnodup).mp (hclient.trans hindex.symm))
      rw [owed_succ client hp]
      exact hsent.append hmem rfl (by simp [putsBy, hne])

lemma skip (hr : (putting msg index client dead).Reaches clients h thread)
    (hc : ∀ c ∈ clients, .connected c ∈ h) :
    (looping msg (index + 1) (dead ++ [index])).Reaches clients (h ++ [.full thread client])
      thread where
  ordered := by
    refine ⟨List.pairwise_append.mpr ⟨hr.ordered.1, List.pairwise_singleton .., ?_⟩, ?_⟩
    · intro d hd d' hd'
      exact List.mem_singleton.mp hd' ▸ hr.ordered.2 d hd
    · intro d hd
      rcases List.mem_append.mp hd with hd | hd
      · exact (hr.ordered.2 d hd).trans (Nat.lt_succ_self _)
      · exact List.mem_singleton.mp hd ▸ Nat.lt_succ_self _
  bounded d hd := by
    rcases List.mem_append.mp hd with hd | hd
    · exact hr.bounded d hd
    · rw [List.mem_singleton.mp hd]
      exact (List.getElem?_eq_some_iff.mp (hr.atIndex msg index client dead rfl)).1
  full d hd c hclient := by
    rcases List.mem_append.mp hd with hd | hd
    · exact List.mem_append_left _ (hr.full d hd c hclient)
    · rw [List.mem_singleton.mp hd, hr.atIndex msg index client dead rfl] at hclient
      obtain rfl := Option.some.inj hclient
      simp
  atIndex := by simp
  current p := by
    rw [broadcasts_append]
    exact (hr.current_succ p).trans (by simp [broadcasts])
  sent p c hclient hdead := by
    have hdead' : p ∉ dead ∧ p ≠ index := by
      simpa [Broadcast.dead] using hdead
    rw [owed_succ client hdead'.2]
    have hmem := hc c (List.mem_of_getElem? hclient)
    exact (hr.sent p c hclient hdead'.1).append hmem rfl rfl

lemma drop (hr : (popping (index :: dead)).Reaches clients h thread)
    (hc : ∀ c ∈ clients, .connected c ∈ h) :
    (popping dead).Reaches (clients.eraseIdx index) (h ++ [.dropped thread client]) thread where
  ordered := (List.pairwise_cons.mp hr.ordered).2
  bounded d hd := by
    have hlt := (List.pairwise_cons.mp hr.ordered).1 d hd
    have hindex := hr.bounded index List.mem_cons_self
    rw [List.length_eraseIdx_of_lt hindex]
    omega
  full d hd c hclient := by
    have hlt := (List.pairwise_cons.mp hr.ordered).1 d hd
    rw [List.getElem?_eraseIdx_of_lt hlt] at hclient
    exact List.mem_append_left _ (hr.full d (List.mem_cons_of_mem _ hd) c hclient)
  atIndex := by simp
  current _ := List.nil_suffix
  sent p c hclient hdead := by
    have hmem := hc c (List.mem_of_mem_eraseIdx (List.mem_of_getElem? hclient))
    have hlt : ∀ d ∈ dead, d < index := (List.pairwise_cons.mp hr.ordered).1
    rw [List.getElem?_eraseIdx] at hclient
    split at hclient
    case isTrue hp =>
      refine (hr.sent p c hclient fun hd => ?_).append hmem rfl rfl
      rcases List.mem_cons.mp hd with rfl | hd
      · exact lt_irrefl _ hp
      · exact hdead hd
    case isFalse hp =>
      refine (hr.sent (p + 1) c hclient fun hd => ?_).append hmem rfl rfl
      rcases List.mem_cons.mp hd with heq | hd
      · omega
      · have hlt := hlt _ hd
        omega

end Broadcast.Reaches

namespace Streams

/-- What holds in a run whose steps are quiet. -/
structure Quietly [DecidableEq ι] (s : Streams ι M) (h : List (StreamEvent ι M)) : Prop where
  slots : s.Slots
  connected : ∀ client ∈ s.sseClients, .connected client ∈ h
  fresh : ∀ client, s.nextClient ≤ client →
    .connected client ∉ h ∧ ∀ thread, putsBy thread client h = []
  reaches : ∀ thread, (s.threads thread).Reaches s.sseClients h thread
  notFailed : ∀ thread, .failed thread ∉ h
  dropped : ∀ thread client, .dropped thread client ∈ h → .full thread client ∈ h

section

variable [DecidableEq ι] {s s' : Streams ι M} {thread : ι} {maxsize : ℕ} {quiet : Prop}
  {call : Broadcast M} {h e : List (StreamEvent ι M)}

/-- A step with which no client comes. -/
lemma Quietly.of_reaches (hs : s.Quietly h) (hslots : s'.Slots)
    (hclients : s'.sseClients ⊆ s.sseClients) (hnext : s'.nextClient = s.nextClient)
    (hconnected : ∀ c, .connected c ∉ e)
    (hputs : ∀ c, s.nextClient ≤ c → ∀ t, putsBy t c e = []) (hfailed : ∀ t, .failed t ∉ e)
    (hdropped : ∀ t c, .dropped t c ∈ e → .full t c ∈ h)
    (hreaches : ∀ t, (s'.threads t).Reaches s'.sseClients (h ++ e) t) : s'.Quietly (h ++ e) where
  slots := hslots
  connected c hc := List.mem_append_left _ (hs.connected c (hclients hc))
  fresh c hc := by
    rw [hnext] at hc
    refine ⟨fun hmem => ?_, fun t => ?_⟩
    · exact (List.mem_append.mp hmem).elim (hs.fresh c hc).1 (hconnected c)
    · rw [putsBy_append, (hs.fresh c hc).2 t, hputs c hc t, List.append_nil]
  reaches := hreaches
  notFailed t hmem := (List.mem_append.mp hmem).elim (hs.notFailed t) (hfailed t)
  dropped t c hmem := by
    apply List.mem_append_left
    exact (List.mem_append.mp hmem).elim (hs.dropped t c) (hdropped t c)

/-- The list stays as it is, and so do the other threads. -/
lemma Quietly.reaches_of_thread (hs : s.Quietly h)
    (ht : ∀ t, t ≠ thread → s'.threads t = s.threads t)
    (he : ∀ t, t ≠ thread → broadcasts t e = [] ∧ ∀ c, putsBy t c e = [])
    (hr : (s'.threads thread).Reaches s.sseClients (h ++ e) thread) (t : ι) :
    (s'.threads t).Reaches s.sseClients (h ++ e) t := by
  by_cases heq : t = thread
  · exact heq ▸ hr
  · rw [ht t heq]
    exact (hs.reaches t).append hs.connected (he t heq).1 (he t heq).2

/-- A step of one thread that puts nothing. -/
lemma Quietly.goOn (hs : s.Quietly h) (hslots : (s.goOn thread call).Slots)
    (hconnected : ∀ c, .connected c ∉ e) (hputs : ∀ t c, putsBy t c e = [])
    (hfailed : ∀ t, .failed t ∉ e) (hdropped : ∀ t c, .dropped t c ∉ e)
    (hb : ∀ t, t ≠ thread → broadcasts t e = [])
    (hr : call.Reaches s.sseClients (h ++ e) thread) : (s.goOn thread call).Quietly (h ++ e) := by
  refine hs.of_reaches hslots (List.Subset.refl _) rfl hconnected (fun c _ t => hputs t c) hfailed
    (fun t c hmem => absurd hmem (hdropped t c)) ?_
  refine hs.reaches_of_thread (fun _ => goOn_of_ne) (fun t hne => ⟨hb t hne, hputs t⟩) ?_
  rw [goOn_self]
  exact hr

theorem Quietly.moves (hs : s.Quietly h) (hquiet : quiet) (hm : Moves maxsize s quiet s' e) :
    s'.Quietly (h ++ e) := by
  have hslots := hs.slots.moves hm
  cases hm with
  | rests | pings | receives =>
    refine hs.of_reaches hslots (List.Subset.refl _) rfl (by simp) (fun _ _ _ => rfl) (by simp)
      (by simp) fun t => ?_
    exact (hs.reaches t).append hs.connected rfl fun _ => rfl
  | connects =>
    obtain ⟨hfresh, hputs⟩ := hs.fresh s.nextClient le_rfl
    constructor
    case slots => exact hslots
    case connected =>
      intro c hc
      rcases List.mem_append.mp hc with hc | hc
      · exact List.mem_append_left _ (hs.connected c hc)
      · simp [List.mem_singleton.mp hc]
    case fresh =>
      intro c hc
      have hlt : s.nextClient < c := hc
      refine ⟨fun hmem => ?_, fun t => ?_⟩
      · rcases List.mem_append.mp hmem with hmem | hmem
        · exact (hs.fresh c hlt.le).1 hmem
        · exact hlt.ne' (StreamEvent.connected.inj (List.mem_singleton.mp hmem))
      · rw [putsBy_append, (hs.fresh c hlt.le).2 t]
        rfl
    case reaches => exact fun t => (hs.reaches t).connect hs.connected hfresh (hputs t)
    case notFailed => simpa using hs.notFailed
    case dropped =>
      intro t c hmem
      exact List.mem_append_left _ (hs.dropped t c (by simpa using hmem))
  | @broadcasts thread msg ht =>
    have hr := hs.reaches thread
    rw [ht] at hr
    refine hs.goOn hslots (by simp) (fun _ _ => rfl) (by simp) (by simp) (fun t hne => ?_)
      (hr.broadcast hs.connected)
    simp [broadcasts, hne.symm]
  | @asks thread msg index client dead ht hclient =>
    have hr := hs.reaches thread
    rw [ht] at hr
    refine hs.goOn hslots (by simp) (fun _ _ => rfl) (by simp) (by simp) (fun _ _ => rfl) ?_
    exact (hr.ask hclient).append hs.connected rfl fun _ => rfl
  | @ends thread msg index dead ht hend =>
    have hr := hs.reaches thread
    rw [ht] at hr
    refine hs.goOn hslots (by simp) (fun _ _ => rfl) (by simp) (by simp) (fun _ _ => rfl) ?_
    exact (hr.finish hend).append hs.connected rfl fun _ => rfl
  | @puts thread msg index client dead ht hfull =>
    have hr := hs.reaches thread
    rw [ht] at hr
    refine hs.of_reaches hslots (List.Subset.refl _) rfl (by simp) (fun c hc t => ?_) (by simp)
      (by simp) ?_
    · have hlt := (hs.slots.held thread msg index client dead ht).1
      simp [putsBy, (hlt.trans_le hc).ne]
    · refine hs.reaches_of_thread (fun _ => goOn_of_ne) (fun t hne => ⟨rfl, fun c => ?_⟩) ?_
      · simp [putsBy, hne.symm]
      · rw [goOn_self]
        exact hr.put hs.connected hs.slots.nodup
  | @skips thread msg index client dead ht hfull =>
    have hr := hs.reaches thread
    rw [ht] at hr
    exact hs.goOn hslots (by simp) (fun _ _ => rfl) (by simp) (by simp) (fun _ _ => rfl)
      (hr.skip hs.connected)
  | @returns thread ht =>
    have hr := hs.reaches thread
    rw [ht] at hr
    refine hs.goOn hslots (by simp) (fun _ _ => rfl) (by simp) (by simp) (fun _ _ => rfl) ?_
    apply Broadcast.Reaches.of_idle
    intro c hc
    obtain ⟨p, hp⟩ := List.mem_iff_getElem?.mp hc
    exact (hr.sent p c hp List.not_mem_nil).append (hs.connected c hc) rfl rfl
  | @drops thread index client dead ht hclient hidle =>
    have hr := hs.reaches thread
    rw [ht] at hr
    refine hs.of_reaches hslots (List.eraseIdx_sublist ..).subset rfl (by simp)
      (fun _ _ _ => rfl) (by simp) (fun t c hmem => ?_) fun t => ?_
    · obtain ⟨rfl, rfl⟩ := StreamEvent.dropped.inj (List.mem_singleton.mp hmem)
      exact hr.full index List.mem_cons_self _ hclient
    · by_cases heq : t = thread
      · subst heq
        rw [goOn_self]
        exact hr.drop hs.connected
      · have hother := hs.reaches t
        rw [hidle hquiet t heq] at hother
        rw [goOn_of_ne heq]
        show (s.threads t).Reaches (s.sseClients.eraseIdx index) _ t
        rw [hidle hquiet t heq]
        apply Broadcast.Reaches.of_idle
        intro c hc
        have hmem := (List.eraseIdx_sublist ..).subset hc
        exact (hother.sent_of_mem hmem).append (hs.connected c hmem) rfl rfl
  | @fails thread index dead ht hend =>
    have hlt := (hs.reaches thread).bounded
    rw [ht] at hlt
    have hle := List.getElem?_eq_none_iff.mp hend
    exact absurd (hlt index List.mem_cons_self) hle.not_gt
  | removes generators client hidle =>
    refine hs.of_reaches hslots List.erase_subset rfl (by simp) (fun _ _ _ => rfl) (by simp)
      (by simp) fun t => ?_
    have hr := hs.reaches t
    show (s.threads t).Reaches (s.sseClients.erase client) _ t
    rw [hidle hquiet t] at hr ⊢
    apply Broadcast.Reaches.of_idle
    intro c hc
    have hmem := List.erase_subset hc
    exact (hr.sent_of_mem hmem).append (hs.connected c hmem) rfl rfl

omit [DecidableEq ι] in
lemma slots_new : ({} : Streams ι M).Slots :=
  ⟨List.nodup_nil, by simp, by simp⟩

lemma once_new (client : ℕ) : ({} : Streams ι M).Once [] thread client :=
  ⟨List.Sublist.refl _, fun _ hdue => hdue.elim⟩

lemma quietly_new : ({} : Streams ι M).Quietly [] where
  slots := slots_new
  connected := by simp
  fresh _ _ := ⟨List.not_mem_nil, fun _ => rfl⟩
  reaches _ := Broadcast.Reaches.of_idle (by simp)
  notFailed := by simp
  dropped := by simp

lemma Quietly.complete (hs : s.Quietly h) : s.Complete h where
  notFailed := hs.notFailed
  dropped := hs.dropped
  reached thread hidle client hc := by
    have hr := hs.reaches thread
    rw [hidle] at hr
    have hsent := hr.sent_of_mem hc
    rwa [Sent, List.append_nil] at hsent

end

/-- However the threads take turns, each client gets each message at most once and in the order of
its thread. If moreover no queue leaves the list while another thread goes through it, no client in
the list misses a message, and no thread fails. -/
theorem run_delivers [DecidableEq ι] (maxsize : ℕ) (inputs : List (StreamInput ι M)) :
    let r := Machine.run (step maxsize) ({} : Streams ι M) inputs
    r.1.Sound maxsize r.2 ∧
      (Machine.Along (step maxsize) Quiet {} inputs → r.1.Complete r.2) := by
  intro r
  constructor
  · have hall : Machine.Along (step maxsize) (fun _ _ => True) ({} : Streams ι M) inputs :=
      Machine.along_of_forall (A := fun _ => True) (by simp)
    have hinv := Machine.run_induction (h := []) (Q := fun (s : Streams ι M) h =>
      s.Slots ∧ (∀ t c, s.Once h t c) ∧ s.Sound maxsize h) ?_ hall
      ⟨slots_new, fun _ => once_new, sound_new⟩
    · exact hinv.2.2
    · rintro s h input - ⟨hslots, honce, hsound⟩
      have hm : Moves maxsize s (s.Quiet input) (s.step maxsize input).1 (s.step maxsize input).2 :=
        moves_step input
      have honce' := Once.moves honce hslots hm
      exact ⟨hslots.moves hm, honce', hsound.moves honce' hm⟩
  · intro hquiet
    refine Quietly.complete (Machine.run_induction (h := []) (Q := Quietly) ?_ hquiet quietly_new)
    intro s h input hq hs
    exact hs.moves hq (moves_step input)

/-- The queue of the first client is full and is popped while the other thread is past it. That
thread then pops the second client, which is not behind and has not got the last message. -/
example :
    let next (thread : Bool) (n : ℕ) := List.replicate n (StreamInput.next (M := ℕ) thread)
    let inputs := [.connect, .connect, .broadcast true 0] ++ next true 7 ++
      [.receive 1, .broadcast true 1] ++ next true 5 ++
      [.receive 1, .broadcast false 2] ++ next false 2 ++ next true 1 ++ next false 3
    let r := Machine.run (step 1) ({} : Streams Bool ℕ) inputs
    r.1.sseClients = [] ∧ .dropped false 1 ∈ r.2 ∧ .full false 1 ∉ r.2 ∧
      receipts 1 r.2 = [0, 1] ∧ r.1.queues 1 = [] := by
  decide

end Streams

end EuNEx.Dashboard
