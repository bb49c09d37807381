import EuNEx.Actors.Exchange

/-!
# Logon and logout

The acceptor for itself: what it is sent by its clients and by the gateway, and what it sends them.
The flag `loggedOn` of a session is set by a Logon and looked at before a report is sent. No
request looks at it, and no Logout clears it.
-/

namespace EuNEx

namespace FIXAcceptorActor

variable (px : PriceText) (f : FIXAcceptorActor)

/-- What `clientRecvLoop` does with a message of a session, and what it pushes to the gateway. -/
def recv (sess : FIXSession) (msg : TagMap) : FIXAcceptorActor × Option MECoreEvent :=
  let msgType := getTag msg 35 []
  if msgType = "A".toList then (f.handleLogon sess msg, none)
  else if msgType = "5".toList then (f.logout sess, none)
  else if msgType = "0".toList then (f.sendFIX sess "0".toList [], none)
  else if msgType = "D".toList then (f, some (.newOrder (handleNewOrderSingle px sess msg)))
  else if msgType = "F".toList then (f, some (.cancelOrder (handleCancelRequest sess msg)))
  else if msgType = "G".toList then
    (f, some (.modifyOrder (handleCancelReplaceRequest px sess msg)))
  else (f, none)

/-- What the acceptor is given: connections, messages that wait in the socket of a session, and
reports. -/
inductive Input where
  | accept
  | message (sessionId : ℕ) (msg : TagMap)
  | close (sessionId : ℕ)
  | execReport (event : ExecReportEvent)

inductive Event where
  | connected (sessionId : ℕ)
  /-- a Logon is received -/
  | logon (sessionId : ℕ)
  /-- a Logout is received -/
  | logout (sessionId : ℕ)
  /-- a request goes to the gateway -/
  | forwarded (sessionId : ℕ) (event : MECoreEvent)
  /-- a report is sent on a session -/
  | reported (sessionId : ℕ)
  /-- a report for a session is sent to nobody -/
  | untold (sessionId : ℕ)
deriving DecidableEq, Repr

/-- What happens on a session when a message is received. -/
def received (sessionId : ℕ) (msg : TagMap) (pushed : Option MECoreEvent) : List Event :=
  if getTag msg 35 [] = "A".toList then [.logon sessionId]
  else if getTag msg 35 [] = "5".toList then [.logout sessionId]
  else (pushed.map (Event.forwarded sessionId)).toList

/-- One step of the acceptor. A thread that waits for `sessionMutex_` does nothing. -/
def step (f : FIXAcceptorActor) : Input → FIXAcceptorActor × List Event
  | .accept =>
    match f.accept with
    | none => (f, [])
    | some f' => (f', [.connected f.nextSessionId])
  | .message sessionId msg =>
    match f.sessions.lookup sessionId, f.lock with
    | some sess, some f' =>
      if sess.receiving then
        let r := f'.recv px sess msg
        (r.1.unlock, received sessionId msg r.2)
      else (f, [])
    | _, _ => (f, [])
  | .close sessionId =>
    match f.close sessionId with
    | none => (f, [])
    | some f' => (f', [])
  | .execReport event =>
    match f.sendExecReport px event with
    | none => (f, [])
    | some f' =>
      (f', if f.sent.length < f'.sent.length then [.reported event.sessionId]
        else [.untold event.sessionId])

end FIXAcceptorActor

/-- The exchange does with a message what its acceptor does, and submits what that pushes. -/
theorem Exchange.handleMessage_eq (px : PriceText) (x : Exchange) (sess : FIXSession)
    (msg : TagMap) :
    Exchange.handleMessage px x sess msg = (x.fix.recv px sess msg).2.toList.foldlM
      (fun x event => x.submit px event) { x with fix := (x.fix.recv px sess msg).1 } := by
  unfold Exchange.handleMessage FIXAcceptorActor.recv
  generalize getTag msg 35 [] = msgType
  simp only
  split_ifs <;> simp

namespace FIXAcceptorActor

variable {px : PriceText} {f : FIXAcceptorActor} {h : List Event} {sessionId : ℕ}

/-! ### The session as its client sees it -/

/-- Where a session is between its connection and its Logout. -/
inductive LogonState where
  | disconnected
  | connected
  | loggedOn
  | loggedOut
deriving DecidableEq, Repr

/-- What an event makes of the state of a session. -/
def LogonState.after (sessionId : ℕ) (state : LogonState) : Event → LogonState
  | .connected id => if id = sessionId then .connected else state
  | .logon id => if id = sessionId then .loggedOn else state
  | .logout id => if id = sessionId then .loggedOut else state
  | _ => state

/-- The state of a session after a history: logged on from a Logon to the next Logout. -/
def logonState (h : List Event) (sessionId : ℕ) : LogonState :=
  h.foldl (LogonState.after sessionId) .disconnected

/-- Requests and reports pass between Logon and Logout only, and then a report is sent. -/
def Disciplined (h : List Event) : Event → Prop
  | .forwarded sessionId _ => logonState h sessionId = .loggedOn
  | .reported sessionId => logonState h sessionId = .loggedOn
  | .untold sessionId => logonState h sessionId ≠ .loggedOn
  | _ => True

/-- No session sends a request before it has logged on, and no report is for a session that had
logged on and has logged out. -/
def InOrder : FIXAcceptorActor × List Event → Input → Prop
  | (f, _), .message sessionId msg => ∀ sess, f.sessions.lookup sessionId = some sess →
    sess.receiving = true → getTag msg 35 [] ∈ Exchange.orderMessages → sess.loggedOn = true
  | (f, h), .execReport event => ∀ sess, f.sessions.lookup event.sessionId = some sess →
    sess.loggedOn = true → logonState h event.sessionId ≠ .loggedOut
  | _, _ => True

@[simp] lemma logonState_nil : logonState [] sessionId = .disconnected := rfl

@[simp] lemma logonState_append (k : List Event) : logonState (h ++ k) sessionId
    = k.foldl (LogonState.after sessionId) (logonState h sessionId) := List.foldl_append

/-! ### What the acceptor keeps of a session -/

/-- The flags of a session in a state. -/
def Flags : LogonState → Option FIXSession → Prop
  | .disconnected, sess => sess = none
  | .connected, sess => ∃ s, sess = some s ∧ s.loggedOn = false
  | .loggedOn, sess => ∃ s, sess = some s ∧ s.loggedOn = true
  | .loggedOut, sess => ∃ s, sess = some s ∧ s.receiving = false

/-- The sessions have the flags of their states. -/
structure Flagged (f : FIXAcceptorActor) (h : List Event) : Prop where
  sessionMutex : f.sessionMutex = false
  key : ∀ id sess, f.sessions.lookup id = some sess → sess.sessionId = id
  flags : ∀ id, Flags (logonState h id) (f.sessions.lookup id)

lemma Flags.congr {state : LogonState} {sess sess' : FIXSession} (h : Flags state (some sess))
    (hon : sess'.loggedOn = sess.loggedOn)
    (hreceiving : sess.receiving = false → sess'.receiving = false) :
    Flags state (some sess') := by
  cases state with
  | disconnected => cases h
  | connected =>
    obtain ⟨s, hs, hflag⟩ := h
    cases hs
    exact ⟨sess', rfl, hon.trans hflag⟩
  | loggedOn =>
    obtain ⟨s, hs, hflag⟩ := h
    cases hs
    exact ⟨sess', rfl, hon.trans hflag⟩
  | loggedOut =>
    obtain ⟨s, hs, hflag⟩ := h
    cases hs
    exact ⟨sess', rfl, hreceiving hflag⟩

/-- Nothing happened to a session that is left alone. -/
lemma Flagged.quiet (hf : Flagged f h) {es : List Event}
    (hes : ∀ id, logonState (h ++ es) id = logonState h id) : Flagged f.unlock (h ++ es) :=
  ⟨rfl, hf.key, fun id => hes id ▸ hf.flags id⟩

/-- One session is replaced, and the events are about it only. -/
lemma Flagged.insert (hf : Flagged f h) (sess : FIXSession) {es : List Event}
    (hes : ∀ id, id ≠ sess.sessionId → logonState (h ++ es) id = logonState h id)
    (hsess : Flags (logonState (h ++ es) sess.sessionId) (some sess))
    (next : ℕ) (sent : List (ℕ × FIXMessage)) :
    Flagged ⟨f.sessions.insert sess.sessionId sess, next, false, sent⟩ (h ++ es) := by
  refine ⟨rfl, fun id sess' hlookup => ?_, fun id => ?_⟩
  · by_cases hid : id = sess.sessionId
    · subst hid
      simp only [Finmap.lookup_insert, Option.some.injEq] at hlookup
      rw [← hlookup]
    · exact hf.key id sess' (by simpa [Finmap.lookup_insert_of_ne _ hid] using hlookup)
  · by_cases hid : id = sess.sessionId
    · subst hid
      simpa [Finmap.lookup_insert] using hsess
    · rw [hes id hid]
      simpa [Finmap.lookup_insert_of_ne _ hid] using hf.flags id

lemma flagged_start : Flagged {} [] := ⟨rfl, by simp, fun id => by simp [Flags]⟩

lemma Flagged.lock_eq (hf : Flagged f h) : f.lock = some { f with sessionMutex := true } := by
  simp [lock, hf.sessionMutex]

/-- A session that is replaced keeps its flag. -/
lemma Flagged.replace (hf : Flagged f h) {sess : FIXSession} (new : FIXSession) {es : List Event}
    (hsess : f.sessions.lookup sess.sessionId = some sess)
    (hid : new.sessionId = sess.sessionId) (hon : new.loggedOn = sess.loggedOn)
    (hreceiving : sess.receiving = false → new.receiving = false)
    (hes : ∀ id, logonState (h ++ es) id = logonState h id)
    (next : ℕ) (sent : List (ℕ × FIXMessage)) :
    Flagged ⟨f.sessions.insert new.sessionId new, next, false, sent⟩ (h ++ es) := by
  refine hf.insert new (fun id _ => hes id) ?_ _ _
  have hflags := hf.flags sess.sessionId
  rw [hsess] at hflags
  rw [hes, hid]
  exact hflags.congr hon hreceiving

/-! ### One step -/

lemma Flagged.step_accept (px : PriceText) (hf : Flagged f h) :
    ∃ f', step px f .accept = (f', [.connected f.nextSessionId]) ∧
      Flagged f' (h ++ [.connected f.nextSessionId]) := by
  refine ⟨_, by simp only [step, accept, hf.lock_eq, Option.map_some]; rfl, ?_⟩
  refine hf.insert { sessionId := f.nextSessionId } (fun id hid => ?_) ?_ _ _
  · simp [LogonState.after, Ne.symm hid]
  · simp [LogonState.after, Flags]

lemma Flagged.step_close (px : PriceText) (hf : Flagged f h) (sessionId : ℕ) :
    ∃ f', step px f (.close sessionId) = (f', []) ∧ Flagged f' (h ++ []) := by
  cases hsess : f.sessions.lookup sessionId with
  | none =>
    refine ⟨_, by simp only [step, close, hf.lock_eq, Option.map_some, hsess]; rfl, ?_⟩
    exact hf.quiet (by simp)
  | some sess =>
    refine ⟨_, by simp only [step, close, hf.lock_eq, Option.map_some, hsess]; rfl, ?_⟩
    have hkey := hf.key _ _ hsess
    subst hkey
    exact hf.replace { sess with receiving := false } hsess rfl rfl (fun _ => rfl)
      (by simp) _ _

/-- A report is sent exactly if the flag of its session is set. -/
lemma Flagged.step_execReport (px : PriceText) (hf : Flagged f h) (event : ExecReportEvent) :
    ∃ f' e, step px f (.execReport event) = (f', [e]) ∧ Flagged f' (h ++ [e]) ∧
      (((∃ sess, f.sessions.lookup event.sessionId = some sess ∧ sess.loggedOn = true) ∧
          e = .reported event.sessionId) ∨
        ((∀ sess, f.sessions.lookup event.sessionId = some sess → sess.loggedOn = false) ∧
          e = .untold event.sessionId)) := by
  have hquiet : Flagged f.unlock (h ++ [.untold event.sessionId]) :=
    hf.quiet (by simp [LogonState.after])
  cases hsess : f.sessions.lookup event.sessionId with
  | none =>
    refine ⟨_, _, ?_, hquiet, Or.inr ⟨by simp, rfl⟩⟩
    simp [step, sendExecReport, hf.lock_eq, hsess, unlock]
  | some sess =>
    have hkey := hf.key _ _ hsess
    cases hon : sess.loggedOn with
    | false =>
      refine ⟨_, _, ?_, hquiet, Or.inr ⟨by simpa using hon, rfl⟩⟩
      simp [step, sendExecReport, hf.lock_eq, hsess, unlock, hon]
    | true =>
      refine ⟨(sendFIX { f with sessionMutex := true } sess "8".toList
        (execReportFields px event)).unlock, .reported event.sessionId, ?_, ?_,
        Or.inl ⟨⟨sess, rfl, hon⟩, rfl⟩⟩
      · simp [step, sendExecReport, hf.lock_eq, hsess, hon, sendFIX, unlock]
      · rw [← hkey] at hsess
        exact hf.replace { sess with msgSeqNum := sess.msgSeqNum + 1 } hsess rfl rfl id
          (by simp [LogonState.after]) _ _

/-- What a message does on its session. -/
lemma Flagged.after_recv (hf : Flagged f h) {sess : FIXSession} {msg : TagMap}
    (hsess : f.sessions.lookup sess.sessionId = some sess) :
    Flagged (recv px { f with sessionMutex := true } sess msg).1.unlock
      (h ++ received sess.sessionId msg
        (recv px { f with sessionMutex := true } sess msg).2) := by
  have hquiet : ∀ event : MECoreEvent, Flagged f.unlock (h ++ [.forwarded sess.sessionId event]) :=
    fun event => hf.quiet (by simp [LogonState.after])
  unfold recv received
  generalize getTag msg 35 [] = msgType
  simp only
  split_ifs with hA h5 h0 hD hF hG
  · refine hf.insert { sess with
      senderCompId := _, loggedOn := true, msgSeqNum := sess.msgSeqNum + 1 } ?_ ?_ _ _
    · intro id hid
      simp [LogonState.after, Ne.symm hid]
    · simp [LogonState.after, Flags]
  · refine hf.insert { sess with
      receiving := false, msgSeqNum := sess.msgSeqNum + 1 } ?_ ?_ _ _
    · intro id hid
      simp [LogonState.after, Ne.symm hid]
    · simp [LogonState.after, Flags]
  · exact hf.replace { sess with msgSeqNum := sess.msgSeqNum + 1 } hsess rfl rfl id
      (by simp) _ _
  · exact hquiet _
  · exact hquiet _
  · exact hquiet _
  · exact hf.quiet (by simp)

/-- A request is pushed exactly by the three messages that ask for one. -/
lemma recv_pushes (px : PriceText) (f : FIXAcceptorActor) (h : List Event) (sessionId : ℕ)
    (sess : FIXSession) (msg : TagMap) :
    (∃ event, (f.recv px sess msg).2 = some event ∧ received sessionId msg (f.recv px sess msg).2
        = [.forwarded sessionId event]) ∧ getTag msg 35 [] ∈ Exchange.orderMessages ∨
      Machine.Always (fun pre e => Disciplined (h ++ pre) e)
        (received sessionId msg (f.recv px sess msg).2) ∧
        getTag msg 35 [] ∉ Exchange.orderMessages := by
  unfold recv received
  generalize getTag msg 35 [] = msgType
  simp only
  split_ifs with hA h5 h0 hD hF hG
  · refine Or.inr ⟨by simp [Machine.always_singleton, Disciplined], by rw [hA]; decide⟩
  · refine Or.inr ⟨by simp [Machine.always_singleton, Disciplined], by rw [h5]; decide⟩
  · refine Or.inr ⟨by simp, by rw [h0]; decide⟩
  · exact Or.inl ⟨⟨_, rfl, rfl⟩, by rw [hD]; decide⟩
  · exact Or.inl ⟨⟨_, rfl, rfl⟩, by rw [hF]; decide⟩
  · exact Or.inl ⟨⟨_, rfl, rfl⟩, by rw [hG]; decide⟩
  · refine Or.inr ⟨by simp, ?_⟩
    simp only [Exchange.orderMessages, List.mem_cons, List.not_mem_nil, or_false, not_or]
    exact ⟨hD, hF, hG⟩

/-- What the acceptor does with a message: nothing, or what its session does. -/
lemma Flagged.step_message (px : PriceText) (hf : Flagged f h) (sessionId : ℕ) (msg : TagMap) :
    (∃ sess, f.sessions.lookup sessionId = some sess ∧ sess.receiving = true ∧
      sess.sessionId = sessionId ∧ step px f (.message sessionId msg)
        = ((recv px { f with sessionMutex := true } sess msg).1.unlock,
          received sessionId msg (recv px { f with sessionMutex := true } sess msg).2)) ∨
    ((∀ sess, f.sessions.lookup sessionId = some sess → sess.receiving = false) ∧
      step px f (.message sessionId msg) = (f, [])) := by
  simp only [step, hf.lock_eq]
  cases hsess : f.sessions.lookup sessionId with
  | none => exact Or.inr ⟨by simp, rfl⟩
  | some sess =>
    cases hreceiving : sess.receiving with
    | false => exact Or.inr ⟨by simpa using hreceiving, by simp [hreceiving]⟩
    | true => exact Or.inl ⟨sess, rfl, hreceiving, hf.key _ _ hsess, by simp [hreceiving]⟩

lemma Flagged.after_step (px : PriceText) (hf : Flagged f h) (input : Input) :
    Flagged (step px f input).1 (h ++ (step px f input).2) := by
  cases input with
  | accept =>
    obtain ⟨f', heq, hf'⟩ := hf.step_accept px
    rwa [heq]
  | message sessionId msg =>
    rcases hf.step_message px sessionId msg with ⟨sess, hsess, -, rfl, heq⟩ | ⟨-, heq⟩
    · rw [heq]
      exact hf.after_recv hsess
    · rw [heq]
      simpa using hf
  | close sessionId =>
    obtain ⟨f', heq, hf'⟩ := hf.step_close px sessionId
    rwa [heq]
  | execReport event =>
    obtain ⟨f', e, heq, hf', -⟩ := hf.step_execReport px event
    rwa [heq]

/-- A step keeps the discipline exactly if its input is in order. -/
lemma Flagged.disciplined_iff (hf : Flagged f h) (input : Input) :
    Machine.Always (fun pre e => Disciplined (h ++ pre) e) (step px f input).2 ↔
      InOrder (f, h) input := by
  cases input with
  | accept =>
    obtain ⟨f', heq, -⟩ := hf.step_accept px
    simp [heq, Machine.always_singleton, Disciplined, InOrder]
  | close sessionId =>
    obtain ⟨f', heq, -⟩ := hf.step_close px sessionId
    simp [heq, InOrder]
  | message sessionId msg =>
    rcases hf.step_message px sessionId msg with
      ⟨sess, hsess, hreceiving, -, heq⟩ | ⟨hnone, heq⟩ <;> rw [heq]
    · have hflags := hf.flags sessionId
      rw [hsess] at hflags
      simp only [InOrder, hsess, Option.some.injEq, forall_eq', hreceiving, forall_const]
      rcases recv_pushes px { f with sessionMutex := true } h sessionId sess msg with
        ⟨⟨event, -, hevents⟩, hmem⟩ | ⟨hall, hmem⟩
      · simp only [hevents, Machine.always_singleton, Disciplined, List.append_nil, hmem,
          forall_const]
        -- before its Logon, or between Logon and Logout
        cases hstate : logonState h sessionId with
        | disconnected => simp [hstate, Flags] at hflags
        | connected => simp_all [Flags]
        | loggedOn => simp_all [Flags]
        | loggedOut => simp_all [Flags]
      · exact iff_of_true hall fun hreq => absurd hreq hmem
    · refine iff_of_true Machine.always_nil fun sess hsess hreceiving => ?_
      simp [hnone sess hsess] at hreceiving
  | execReport event =>
    obtain ⟨f', e, heq, -, hsent⟩ := hf.step_execReport px event
    have hflags := hf.flags event.sessionId
    rw [heq, Machine.always_singleton, List.append_nil]
    rcases hsent with ⟨⟨sess, hsess, hon⟩, rfl⟩ | ⟨hoff, rfl⟩
    · rw [hsess] at hflags
      simp only [InOrder, hsess, Disciplined, Option.some.injEq, forall_eq', hon, forall_const]
      -- since its Logon, or after its Logout as well
      cases hstate : logonState h event.sessionId with
      | disconnected => simp [hstate, Flags] at hflags
      | connected => simp_all [Flags]
      | loggedOn => simp
      | loggedOut => simp
    · refine iff_of_true (fun hstate => ?_) fun sess hsess hon => ?_
      · obtain ⟨sess, hsess, hon⟩ := (show Flags .loggedOn _ from hstate ▸ hflags)
        simp [hoff sess hsess] at hon
      · simp [hoff sess hsess] at hon

/-- In every run, requests are forwarded and reports are sent between Logon and Logout only, and
then every report is sent, exactly if every input is in order. -/
theorem run_disciplined_iff (px : PriceText) (inputs : List Input) :
    Machine.Always Disciplined (Machine.run (step px) {} inputs).2 ↔
      Machine.Along (Machine.recording (step px)) InOrder ({}, []) inputs :=
  Machine.always_iff_along (I := fun s => Flagged s.1 s.2)
    (fun _ _ input _ hf => hf.after_step px input) (fun _ _ input hf _ => hf.disciplined_iff input)
    flagged_start

/-- A client sends an order without logging on. -/
theorem not_disciplined_newOrderSingle : ¬∀ (px : PriceText) (inputs : List Input),
    Machine.Always Disciplined (Machine.run (step px) {} inputs).2 := by
  intro h
  have hforwarded := h ⟨fun _ => 0, fun _ => []⟩
    [.accept, .message 100 [⟨35, "D".toList⟩, ⟨11, "1".toList⟩].toFinmap]
    [.connected 100] (.forwarded 100 (.newOrder ⟨1, 0, .sell, .limit, .day, 0, 0, 100, 0⟩)) []
    (by decide +kernel)
  exact absurd (show logonState [.connected 100] 100 = .loggedOn from hforwarded) (by decide)

end FIXAcceptorActor

end EuNEx
