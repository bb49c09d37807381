import EuNEx.Actors.Exchange

/-!
# Session ids

The acceptor counts its session ids up from 100, the members of the AI trader have fixed ids from
200. A report goes to the socket that `sessions_` holds under its session id.
-/

namespace EuNEx

/-! ### The members of the AI trader -/

inductive Strategy where
  | momentum
  | meanReversion
  | random
deriving DecidableEq, Repr

structure AITraderMember where
  memberId : ℕ
  sessionId : ℕ
  strategy : Strategy
deriving DecidableEq, Repr

namespace AITraderActor

def numMembers : ℕ := 10

def initMembers : List AITraderMember :=
  (List.range numMembers).map fun i =>
    { memberId := i + 1
      sessionId := 200 + i
      strategy := [Strategy.momentum, .meanReversion, .random].getD (i % 3) .momentum }

end AITraderActor

/-! ### The acceptor keeps its keys -/

namespace FIXAcceptorActor

variable {f f' : FIXAcceptorActor} {next : ℕ} {K : ℕ → Prop}

/-- The next id is `next`, and every session is kept under its own id, which is in `K`. -/
structure Keyed (next : ℕ) (K : ℕ → Prop) (f : FIXAcceptorActor) : Prop where
  next : f.nextSessionId = next
  sessions : ∀ id sess, f.sessions.lookup id = some sess → sess.sessionId = id ∧ K id

lemma Keyed.insert (h : f.Keyed next K) (sess : FIXSession) (hsess : K sess.sessionId)
    (sent : List (ℕ × FIXMessage)) (sessionMutex : Bool) :
    Keyed next K ⟨f.sessions.insert sess.sessionId sess, f.nextSessionId, sessionMutex, sent⟩ := by
  refine ⟨h.next, fun id sess' hlookup => ?_⟩
  by_cases hid : id = sess.sessionId
  · subst hid
    simp only [Finmap.lookup_insert, Option.some.injEq] at hlookup
    subst hlookup
    exact ⟨rfl, hsess⟩
  · exact h.sessions id sess' (by simpa [Finmap.lookup_insert_of_ne _ hid] using hlookup)

lemma Keyed.unlock (h : f.Keyed next K) : f.unlock.Keyed next K := ⟨h.next, h.sessions⟩

lemma Keyed.lock (h : f.Keyed next K) (hf : f.lock = some f') : f'.Keyed next K := by
  rw [FIXAcceptorActor.lock] at hf
  split at hf
  · cases hf
  · cases hf
    exact ⟨h.next, h.sessions⟩

lemma Keyed.sendFIX (h : f.Keyed next K) (sess : FIXSession) (hsess : K sess.sessionId)
    (msgType : List Char) (fields : List (ℕ × List Char)) :
    (f.sendFIX sess msgType fields).Keyed next K :=
  h.insert { sess with msgSeqNum := sess.msgSeqNum + 1 } hsess _ _

lemma Keyed.sendExecReport {px : PriceText} {rpt : ExecReportEvent} (h : f.Keyed next K)
    (hf : f.sendExecReport px rpt = some f') : f'.Keyed next K := by
  obtain ⟨g, hlock, rfl⟩ := Option.map_eq_some_iff.mp hf
  have hg := h.lock hlock
  refine Keyed.unlock ?_
  cases hsess : g.sessions.lookup rpt.sessionId with
  | none => exact hg
  | some sess =>
    have hkey := hg.sessions _ _ hsess
    dsimp only
    split
    · exact hg.sendFIX sess (hkey.1 ▸ hkey.2) _ _
    · exact hg

lemma Keyed.close {sessionId : ℕ} (h : f.Keyed next K) (hf : f.close sessionId = some f') :
    f'.Keyed next K := by
  obtain ⟨g, hlock, rfl⟩ := Option.map_eq_some_iff.mp hf
  have hg := h.lock hlock
  refine Keyed.unlock ?_
  cases hsess : g.sessions.lookup sessionId with
  | none => exact hg
  | some sess =>
    obtain ⟨rfl, hkey⟩ := hg.sessions _ _ hsess
    exact hg.insert { sess with receiving := false } hkey _ _

/-- A new connection gets the next id, and the counter goes on, in 16 bits. -/
lemma Keyed.accept (h : f.Keyed next K) (hf : f.accept = some f') :
    f'.Keyed ((next + 1) % 2 ^ 16) fun id => K id ∨ id = next := by
  obtain ⟨g, hlock, rfl⟩ := Option.map_eq_some_iff.mp hf
  obtain ⟨rfl, hsessions⟩ := h.lock hlock
  have hkept : g.Keyed g.nextSessionId fun id => K id ∨ id = g.nextSessionId :=
    ⟨rfl, fun id sess hlookup => (hsessions id sess hlookup).imp_right Or.inl⟩
  exact ⟨rfl, (hkept.insert { sessionId := g.nextSessionId } (Or.inr rfl) g.sent false).sessions⟩

end FIXAcceptorActor

namespace Exchange

open FIXAcceptorActor (Keyed)

variable {px : PriceText} {x x' : Exchange} {next : ℕ} {K : ℕ → Prop}

lemma keyed_notify {subscriber : Subscriber} {event : ExecReportEvent} (h : x.fix.Keyed next K)
    (hx : notify px x subscriber event = some x') : x'.fix.Keyed next K := by
  cases subscriber with
  | fixAcceptor =>
    obtain ⟨fix, hfix, rfl⟩ := Option.map_eq_some_iff.mp hx
    exact h.sendExecReport hfix
  | aiTrader =>
    cases hx
    exact h

lemma keyed_onExecReport {event : ExecReportEvent} (h : x.fix.Keyed next K)
    (hx : x.onExecReport px event = some x') : x'.fix.Keyed next K :=
  Machine.foldlM_keeps (P := fun x => x.fix.Keyed next K)
    (fun _ _ _ hs hstep => keyed_notify hs hstep) hx h

lemma keyed_deliver {out : MECoreOutput} (h : x.fix.Keyed next K)
    (hx : deliver px x out = some x') : x'.fix.Keyed next K := by
  cases out with
  | execReport event => exact keyed_onExecReport h hx
  | refusal event => exact keyed_onExecReport h hx
  | _ =>
    cases hx
    exact h

lemma keyed_submit {event : MECoreEvent} (h : x.fix.Keyed next K)
    (hx : x.submit px event = some x') : x'.fix.Keyed next K := by
  rw [Exchange.submit] at hx
  cases hcore : x.books.lookup event.symbolIdx with
  | none =>
    rw [hcore] at hx
    cases hx
    exact h
  | some core =>
    rw [hcore] at hx
    exact Machine.foldlM_keeps (P := fun x => x.fix.Keyed next K)
      (fun _ _ _ hs hstep => keyed_deliver hs hstep) hx h

lemma keyed_handleMessage {sess : FIXSession} {msg : TagMap} (h : x.fix.Keyed next K)
    (hsess : K sess.sessionId) (hx : handleMessage px x sess msg = some x') :
    x'.fix.Keyed next K := by
  unfold handleMessage at hx
  simp only at hx
  split at hx
  · cases hx
    exact h.sendFIX { sess with senderCompId := _, loggedOn := true } hsess _ _
  split at hx
  · cases hx
    exact h.sendFIX { sess with receiving := false } hsess _ _
  split at hx
  · cases hx
    exact h.sendFIX sess hsess _ _
  split at hx
  · exact keyed_submit h hx
  split at hx
  · exact keyed_submit h hx
  split at hx
  · exact keyed_submit h hx
  · cases hx
    exact h

lemma keyed_recvMessage {sessionId : ℕ} {msg : TagMap} (h : x.fix.Keyed next K)
    (hx : x.recvMessage px sessionId msg = some x') : x'.fix.Keyed next K := by
  rw [Exchange.recvMessage] at hx
  cases hsess : x.fix.sessions.lookup sessionId with
  | none =>
    rw [hsess] at hx
    cases hx
    exact h
  | some sess =>
    obtain ⟨rfl, hkey⟩ := h.sessions _ _ hsess
    simp only [hsess] at hx
    split at hx
    · obtain ⟨y, hy, rfl⟩ := Option.map_eq_some_iff.mp hx
      obtain ⟨fix, hlock, hy⟩ := Option.bind_eq_some_iff.mp hy
      exact (keyed_handleMessage (x := { x with fix := fix }) (h.lock hlock) hkey hy).unlock
    · cases hx
      exact h

/-- Only a new connection changes the next id, or adds a session. -/
lemma keyed_handle {input : ExchangeInput} (h : x.fix.Keyed next K) (hinput : input ≠ .accept)
    (hx : x.handle px input = some x') : x'.fix.Keyed next K := by
  cases input with
  | accept => exact absurd rfl hinput
  | message sessionId msg => exact keyed_recvMessage h hx
  | close sessionId =>
    obtain ⟨fix, hfix, rfl⟩ := Option.map_eq_some_iff.mp hx
    exact h.close hfix
  | submit event => exact keyed_submit h hx

end Exchange

/-! ### Connections and their sockets -/

/-- The exchange with the connections that were accepted, which are numbered from 0. -/
structure Connections where
  exchange : Option Exchange
  /-- the session id that each connection was given -/
  sessionIds : List ℕ := []
  /-- `sessions_[id]->sock`, as the number of its connection -/
  sock : ℕ → Option ℕ := fun _ => none

/-- Who has a session id: a connection, or a member of the AI trader. -/
inductive Participant where
  | client (n : ℕ)
  | member (i : ℕ)
deriving DecidableEq, Repr

def Participant.sessionId (sessionIds : List ℕ) : Participant → Option ℕ
  | .client n => sessionIds[n]?
  | .member i => AITraderActor.initMembers[i]?.map AITraderMember.sessionId

inductive SessionEvent where
  /-- a connection is given a session id; `replaced` if `sessions_` has an entry for it already -/
  | accepted (sessionId : ℕ) (replaced : Bool)
  /-- the report for a session is written to the socket of a connection -/
  | execReport (sessionId sock : ℕ)
deriving DecidableEq, Repr

namespace Connections

variable {px : PriceText} {c : Connections} {h : List SessionEvent}

/-- The reports among what is sent. -/
def reports (c : Connections) (sent : List (ℕ × FIXMessage)) : List SessionEvent :=
  sent.filterMap fun m =>
    if m.2.msgType = "8".toList then (c.sock m.1).map (SessionEvent.execReport m.1) else none

/-- What becomes of the connections when the exchange `x` has handled an input and is `x'`. -/
def handled (c : Connections) (x x' : Exchange) :
    ExchangeInput → Connections × List SessionEvent
  | .accept =>
    ({ exchange := some x'
       sessionIds := c.sessionIds ++ [x.fix.nextSessionId]
       sock := Function.update c.sock x.fix.nextSessionId (some c.sessionIds.length) },
      [.accepted x.fix.nextSessionId (x.fix.sessions.lookup x.fix.nextSessionId).isSome])
  | _ => ({ c with exchange := some x' }, c.reports (x'.fix.sent.drop x.fix.sent.length))

/-- The exchange handles an input, or gets stuck. -/
def step (px : PriceText) (c : Connections) (input : ExchangeInput) :
    Connections × List SessionEvent :=
  match c.exchange with
  | none => (c, [])
  | some x =>
    match x.handle px input with
    | none => ({ c with exchange := none }, [])
    | some x' => c.handled x x' input

def main : Connections where
  exchange := some Exchange.main

/-- The session ids that the connections were given. -/
def given (h : List SessionEvent) : List ℕ :=
  h.filterMap fun
    | .accepted sessionId _ => some sessionId
    | .execReport _ _ => none

/-- A new connection gets an id that nobody has, and an entry of its own. A report is written to
the socket of the only one who has its session id. -/
def Identified (h : List SessionEvent) : SessionEvent → Prop
  | .accepted sessionId replaced =>
    (∀ p : Participant, p.sessionId (given h) ≠ some sessionId) ∧ replaced = false
  | .execReport sessionId sock =>
    ∀ p : Participant, p.sessionId (given h) = some sessionId → p = .client sock

/-- No more than 100 connections are accepted. -/
def RoomLeft (c : Connections) (input : ExchangeInput) : Prop :=
  c.exchange.isSome → input = .accept → c.sessionIds.length < 100

/-! ### The ids that are given -/

@[simp] lemma given_append (k : List SessionEvent) : given (h ++ k) = given h ++ given k :=
  List.filterMap_append

@[simp] lemma given_accepted (sessionId : ℕ) (replaced : Bool) :
    given [.accepted sessionId replaced] = [sessionId] := rfl

@[simp] lemma given_execReport (sessionId sock : ℕ) : given [.execReport sessionId sock] = [] := rfl

lemma mem_reports {sent : List (ℕ × FIXMessage)} {e : SessionEvent} (he : e ∈ c.reports sent) :
    ∃ sessionId sock, e = .execReport sessionId sock ∧ c.sock sessionId = some sock := by
  obtain ⟨m, -, hm⟩ := List.mem_filterMap.mp he
  split at hm
  · obtain ⟨sock, hsock, rfl⟩ := Option.map_eq_some_iff.mp hm
    exact ⟨m.1, sock, rfl, hsock⟩
  · cases hm

lemma given_eq_nil
    (hh : ∀ e ∈ h, ∃ sessionId n, e = .execReport sessionId n ∧ c.sock sessionId = some n) :
    given h = [] := by
  refine List.filterMap_eq_nil_iff.mpr fun e he => ?_
  obtain ⟨sessionId, sock, rfl, -⟩ := hh e he
  rfl

lemma member_sessionId {ids : List ℕ} {i sessionId : ℕ} :
    (Participant.member i).sessionId ids = some sessionId ↔
      i < AITraderActor.numMembers ∧ 200 + i = sessionId := by
  by_cases hi : i < AITraderActor.numMembers <;>
    simp [Participant.sessionId, AITraderActor.initMembers, hi]

/-- As long as everybody was identified, no two connections have the same id, and none has that of
a member. -/
lemma ids_of_always (hh : Machine.Always Identified h) :
    (given h).Nodup ∧ ∀ i < AITraderActor.numMembers, 200 + i ∉ given h := by
  induction h using List.reverseRecOn with
  | nil => simp [given]
  | append_singleton h e ih =>
    rw [Machine.always_snoc] at hh
    obtain ⟨hnodup, hmembers⟩ := ih hh.1
    cases e with
    | execReport sessionId sock => simpa using ⟨hnodup, hmembers⟩
    | accepted sessionId replaced =>
      obtain ⟨hnew, -⟩ := hh.2
      have hfresh : sessionId ∉ given h := by
        intro hmem
        obtain ⟨n, hn⟩ := List.mem_iff_getElem?.mp hmem
        exact hnew (.client n) hn
      rw [given_append, given_accepted]
      refine ⟨List.nodup_append.mpr ⟨hnodup, by simp, ?_⟩, fun i hi hmem => ?_⟩
      · rintro a ha b hb rfl
        exact hfresh (List.mem_singleton.mp hb ▸ ha)
      · rcases List.mem_append.mp hmem with hmem | hmem
        · exact hmembers i hi hmem
        · exact hnew (.member i) (member_sessionId.mpr ⟨hi, List.mem_singleton.mp hmem⟩)

/-! ### Runs -/

/-- Where the acceptor is in its count, and whose the sockets are. -/
structure Counted (c : Connections) (h : List SessionEvent) : Prop where
  ids : given h = c.sessionIds
  sessionIds : c.sessionIds = (List.range c.sessionIds.length).map fun n => (100 + n) % 2 ^ 16
  sock : ∀ sessionId n, c.sock sessionId = some n → c.sessionIds[n]? = some sessionId
  free : ∀ x, c.exchange = some x → x.Free
  keyed : ∀ x, c.exchange = some x →
    x.fix.Keyed ((100 + c.sessionIds.length) % 2 ^ 16) (· ∈ c.sessionIds)

lemma Counted.mem_sessionIds (hc : Counted c h) {id : ℕ} :
    id ∈ c.sessionIds ↔ ∃ n < c.sessionIds.length, (100 + n) % 2 ^ 16 = id := by
  conv_lhs => rw [hc.sessionIds]
  simp

lemma counted_main : Counted main [] := by
  refine ⟨rfl, rfl, by simp [main], ?_, ?_⟩
  · rintro x ⟨⟩
    exact Exchange.main_free
  · rintro x ⟨⟩
    exact ⟨rfl, fun id sess hlookup => by simp [Exchange.main] at hlookup⟩

/-- What a step does: it accepts a connection, the exchange handles another input, or the exchange
gets stuck or is stuck already. -/
lemma step_cases (px : PriceText) (hc : Counted c h) (input : ExchangeInput) :
    (∃ x f, c.exchange = some x ∧ input = .accept ∧ x.fix.accept = some f ∧
      step px c input = c.handled x { x with fix := f } .accept) ∨
    (∃ x x', c.exchange = some x ∧ input ≠ .accept ∧ x.handle px input = some x' ∧
      step px c input =
        ({ c with exchange := some x' }, c.reports (x'.fix.sent.drop x.fix.sent.length))) ∨
    ((c.exchange.isSome → input ≠ .accept) ∧
      step px c input = ({ c with exchange := none }, [])) := by
  rw [step]
  cases hx : c.exchange with
  | none => exact Or.inr (Or.inr ⟨by simp, by simp [← hx]⟩)
  | some x =>
    by_cases hinput : input = .accept
    · subst hinput
      obtain ⟨f, hf⟩ : ∃ f, x.fix.accept = some f := by
        simp [FIXAcceptorActor.accept, FIXAcceptorActor.lock, (hc.free x hx).sessionMutex]
      exact Or.inl ⟨x, f, rfl, rfl, hf, by simp [Exchange.handle, hf]⟩
    · refine Or.inr ?_
      cases hx' : x.handle px input with
      | none => exact Or.inr ⟨fun _ => hinput, by simp only [hx']⟩
      | some x' =>
        refine Or.inl ⟨x, x', rfl, hinput, hx', ?_⟩
        cases input with
        | accept => exact absurd rfl hinput
        | _ => simp only [hx', handled]

lemma Counted.accept (px : PriceText) {x : Exchange} {f : FIXAcceptorActor} (hc : Counted c h)
    (hx : c.exchange = some x) (hf : x.fix.accept = some f) :
    Counted (c.handled x { x with fix := f } .accept).1
      (h ++ (c.handled x { x with fix := f } .accept).2) := by
  have hkeyed := hc.keyed x hx
  have hnext : x.fix.nextSessionId = (100 + c.sessionIds.length) % 2 ^ 16 := hkeyed.next
  refine ⟨by simp [handled, hc.ids], ?_, fun sessionId n hn => ?_, ?_, ?_⟩
  · simp only [handled, List.length_append, List.length_singleton, List.range_succ,
      List.map_append, List.map_singleton]
    rw [← hc.sessionIds, hnext]
  · by_cases hid : sessionId = x.fix.nextSessionId
    · subst hid
      simp only [handled, Function.update_self, Option.some.injEq] at hn
      simp [handled, ← hn]
    · have hold := hc.sock sessionId n (by simpa [handled, hid] using hn)
      obtain ⟨hlt, -⟩ := List.getElem?_eq_some_iff.mp hold
      simpa [handled, List.getElem?_append_left hlt] using hold
  · rintro y ⟨⟩
    have hhandle : x.handle px .accept = some { x with fix := f } := by simp [Exchange.handle, hf]
    rcases (hc.free x hx).handle px .accept with ⟨hnone, -⟩ | ⟨z, hz, hfree, -⟩
    · cases hhandle.symm.trans hnone
    · cases hhandle.symm.trans hz
      exact hfree
  · rintro y ⟨⟩
    have haccept := hkeyed.accept hf
    refine ⟨?_, fun id sess hlookup => ?_⟩
    · have hlen : (c.handled x { x with fix := f } .accept).1.sessionIds.length
          = c.sessionIds.length + 1 := by simp [handled]
      rw [haccept.next, hlen]
      omega
    · obtain ⟨hsess, hmem⟩ := haccept.sessions id sess hlookup
      exact ⟨hsess, by simpa [handled, hnext] using hmem⟩

lemma Counted.step (px : PriceText) (hc : Counted c h) (input : ExchangeInput) :
    Counted (step px c input).1 (h ++ (step px c input).2) := by
  rcases step_cases px hc input with
    ⟨x, f, hx, -, hf, heq⟩ | ⟨x, x', hx, hinput, hx', heq⟩ | ⟨-, heq⟩ <;> rw [heq]
  · exact hc.accept px hx hf
  · have hnone : given (c.reports (x'.fix.sent.drop x.fix.sent.length)) = [] :=
      given_eq_nil fun e he => mem_reports he
    refine ⟨by simp [hc.ids, hnone], hc.sessionIds, hc.sock, ?_, ?_⟩
    · rintro y ⟨⟩
      rcases (hc.free x hx).handle px input with ⟨hnone, -⟩ | ⟨z, hz, hfree, -⟩
      · cases hx'.symm.trans hnone
      · cases hx'.symm.trans hz
        exact hfree
    · rintro y ⟨⟩
      exact Exchange.keyed_handle (hc.keyed x hx) hinput hx'
  · exact ⟨by simpa using hc.ids, hc.sessionIds, hc.sock, by simp, by simp⟩

/-- A new connection is identified exactly if fewer than 100 were accepted before. -/
lemma identified_accept {x : Exchange} (hc : Counted c h) (hx : c.exchange = some x)
    (hh : Machine.Always Identified h) :
    Identified h (.accepted x.fix.nextSessionId
        (x.fix.sessions.lookup x.fix.nextSessionId).isSome) ↔ c.sessionIds.length < 100 := by
  have hkeyed := hc.keyed x hx
  rw [hkeyed.next]
  constructor
  · rintro ⟨hnew, -⟩
    by_contra hlen
    rcases Nat.eq_or_lt_of_le (not_lt.mp hlen) with heq | hlt
    · exact hnew (.member 0) (member_sessionId.mpr ⟨by decide, by omega⟩)
    · -- connection 100 had the id of the first member
      have hmem : 200 ∈ given h := by
        rw [hc.ids, hc.mem_sessionIds]
        exact ⟨100, hlt, rfl⟩
      exact (ids_of_always hh).2 0 (by decide) hmem
  · intro hlen
    have hmod : (100 + c.sessionIds.length) % 2 ^ 16 = 100 + c.sessionIds.length :=
      Nat.mod_eq_of_lt (by omega)
    have hfresh : 100 + c.sessionIds.length ∉ c.sessionIds := by
      intro hmem
      obtain ⟨n, hn, hid⟩ := hc.mem_sessionIds.mp hmem
      omega
    rw [hmod]
    refine ⟨fun p hp => ?_, ?_⟩
    · cases p with
      | client n =>
        have hmem : 100 + c.sessionIds.length ∈ given h := List.mem_of_getElem? hp
        exact hfresh (by rwa [hc.ids] at hmem)
      | member i =>
        have hmember := (member_sessionId.mp hp).2
        omega
    · rw [Option.isSome_eq_false_iff, Option.isNone_iff_eq_none]
      cases hsess : x.fix.sessions.lookup (100 + c.sessionIds.length) with
      | none => rfl
      | some sess => exact absurd (hkeyed.sessions _ _ hsess).2 hfresh

/-- As long as everybody was identified, reports go to the only socket of their session. -/
lemma identified_reports (hc : Counted c h) (hh : Machine.Always Identified h)
    (sent : List (ℕ × FIXMessage)) :
    Machine.Always (fun pre e => Identified (h ++ pre) e) (c.reports sent) := by
  refine Machine.always_of_mem fun e he pre hpre => ?_
  obtain ⟨sessionId, n, rfl, hsock⟩ := mem_reports he
  have hnone : given pre = [] := given_eq_nil fun e he => mem_reports (hpre e he)
  obtain ⟨hnodup, hmembers⟩ := ids_of_always hh
  have hn : (given h)[n]? = some sessionId := hc.ids ▸ hc.sock sessionId n hsock
  intro p hp
  rw [given_append, hnone, List.append_nil] at hp
  cases p with
  | client m =>
    obtain ⟨hlt, -⟩ := List.getElem?_eq_some_iff.mp hn
    rw [(List.getElem?_inj hlt hnodup).mp (hn.trans hp.symm)]
  | member i =>
    obtain ⟨hi, rfl⟩ := member_sessionId.mp hp
    exact absurd (List.mem_of_getElem? hn) (hmembers i hi)

/-- In every run, everybody is identified by a session id of their own exactly if no more than 100
connections are accepted. -/
theorem run_identified_iff (px : PriceText) (inputs : List ExchangeInput) :
    Machine.Always Identified (Machine.run (step px) main inputs).2 ↔
      Machine.Along (step px) RoomLeft main inputs := by
  rw [← Machine.along_recording (h := [])]
  refine Machine.always_iff_along (I := fun s => Counted s.1 s.2)
    (fun c h input _ hc => hc.step px input) (fun c h input hc hh => ?_) counted_main
  rcases step_cases px hc input with
    ⟨x, f, hx, rfl, hf, heq⟩ | ⟨x, x', hx, hinput, hx', heq⟩ | ⟨hinput, heq⟩ <;> rw [heq]
  · rw [handled, Machine.always_singleton, List.append_nil, identified_accept hc hx hh]
    have hsome : c.exchange = some x := hx
    simp [RoomLeft, hsome]
  · exact iff_of_true (identified_reports hc hh _) fun _ haccept => absurd haccept hinput
  · exact iff_of_true Machine.always_nil fun hsome haccept => absurd haccept (hinput hsome)

/-- Of 101 clients that connect, the last one gets the session id of the first member of the AI
trader. -/
theorem not_identified_accept : ¬∀ (px : PriceText) (inputs : List ExchangeInput),
    Machine.Always Identified (Machine.run (step px) main inputs).2 := by
  intro h
  have hlast := h ⟨fun _ => 0, fun _ => []⟩ (List.replicate 101 .accept)
    ((List.range' 100 100).map fun id => .accepted id false) (.accepted 200 false) []
    (by decide +kernel)
  exact hlast.1 (.member 0) (by decide)

end Connections

end EuNEx
