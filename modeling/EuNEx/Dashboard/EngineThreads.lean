import EuNEx.Dashboard.Executed
import EuNEx.Dashboard.RenameId
import EuNEx.Lib.Tickets

/-!
# The engine with several threads

Every request to the dashboard is served by a thread of its own, and the market simulator has one
too. What `submit_order`, `cancel_order` and `amend_order` do to the books, the orders, the trades
and the snapshots, they do with the lock held; but `submit_order` takes its id from `next_order_id`
before that. As long as no two threads take an id at the same time, what the threads do is what they
would do one after the other, in the order in which they get the lock, up to the ids of the orders.
What a thread saves, broadcasts and returns when it has released the lock is not followed here: it
is the entry of `orders` itself, which other threads may have changed by then.
-/

namespace EuNEx.Dashboard

variable {ι P : Type*}

/-- The engine and its threads. The counter of the engine is that of the threads. -/
structure EngineThreads (ι P : Type*) where
  engine : MatchingEngine P := {}
  /-- `next_order_id`, and how far the threads in `submit_order` are -/
  orderIds : Tickets.Counter ι (ℕ × Submission P) := { next := 1000 }

/-- A call of `cancel_order` or `amend_order`. -/
inductive Change (P : Type*) where
  | cancel (orderId : ℕ)
  | amend (orderId : ℕ) (newPrice : Option P) (newQuantity : Option ℤ)
deriving DecidableEq, Repr

def Change.request : Change P → Request P
  | .cancel orderId => .cancel orderId
  | .amend orderId newPrice newQuantity => .amend orderId newPrice newQuantity

/-- What a thread does. -/
inductive ThreadAction (P : Type*) where
  /-- it calls `submit_order`: the first line -/
  | submit (symbolIdx : ℕ) (r : Submission P)
  /-- the next step of `submit_order`: the second line has two, the block with the lock is one -/
  | next
  /-- it calls another method, which gets the lock -/
  | change (change : Change P)
deriving DecidableEq, Repr

/-- What has been done. For the answer to a call stands the order as it is when the lock is
released. -/
inductive ThreadEvent (P : Type*) where
  | took (orderId : ℕ)
  | submitted (orderId symbolIdx : ℕ) (r : Submission P) (answer : Option (Order P))
  | changed (change : Change P) (answer : Option (Order P))
deriving DecidableEq, Repr

namespace ThreadEvent

/-- The ids that threads have taken. -/
def tookIds (h : List (ThreadEvent P)) : List ℕ :=
  h.filterMap fun
    | .took orderId => some orderId
    | _ => none

/-- The ids under which orders have been submitted. -/
def submittedIds (h : List (ThreadEvent P)) : List ℕ :=
  h.filterMap fun
    | .submitted orderId _ _ _ => some orderId
    | _ => none

def answer? : ThreadEvent P → Option (Order P)
  | .took _ => none
  | .submitted _ _ _ answer => answer
  | .changed _ answer => answer

/-- What happens to the counter of the ids. -/
def ticket? : ThreadEvent P → Option (Tickets.Event (ℕ × Submission P))
  | .took orderId => some (.taken orderId)
  | .submitted orderId symbolIdx r _ => some (.used orderId (symbolIdx, r))
  | .changed _ _ => none

end ThreadEvent

section

variable {h k : List (ThreadEvent P)} {orderId symbolIdx : ℕ} {r : Submission P}
  {change : Change P} {answer : Option (Order P)}

namespace ThreadEvent

lemma filterMap_answer?_singleton (e : ThreadEvent P) :
    [e].filterMap answer? = e.answer?.toList := by cases he : e.answer? <;> simp [he]

@[simp] lemma submittedIds_append : submittedIds (h ++ k) = submittedIds h ++ submittedIds k :=
  List.filterMap_append ..

@[simp] lemma submittedIds_took : submittedIds [(took orderId : ThreadEvent P)] = [] := rfl

@[simp] lemma submittedIds_submitted :
    submittedIds [submitted orderId symbolIdx r answer] = [orderId] := rfl

@[simp] lemma submittedIds_changed : submittedIds [changed change answer] = [] := rfl

end ThreadEvent

/-- The tickets of the counter are the ids. -/
lemma takenTickets_ticket? :
    Tickets.takenTickets (h.filterMap ThreadEvent.ticket?) = ThreadEvent.tookIds h := by
  rw [Tickets.takenTickets, List.filterMap_filterMap, ThreadEvent.tookIds]
  refine List.filterMap_congr fun e _ => ?_
  cases e <;> rfl

lemma usedTickets_ticket? :
    Tickets.usedTickets (h.filterMap ThreadEvent.ticket?) = ThreadEvent.submittedIds h := by
  rw [Tickets.usedTickets, List.filterMap_filterMap, ThreadEvent.submittedIds]
  refine List.filterMap_congr fun e _ => ?_
  cases e <;> rfl

end

/-- The submission with the client order id that the order gets under this id. -/
def Submission.named (r : Submission P) (orderId : ℕ) : Submission P :=
  { r with clOrdId :=
      if r.clOrdId = [] then "D-".toList ++ CString.toString orderId else r.clOrdId }

/-- The call behind an event, with the ids renamed back. -/
def ThreadEvent.request (ρ : Equiv.Perm ℕ) : ThreadEvent P → Option (Request P)
  | .took _ => none
  | .submitted orderId symbolIdx r _ => some (.submit symbolIdx (r.named orderId))
  | .changed change _ => some (change.request.renameId ρ.symm)

/-- The move of the counter behind an action. -/
def ThreadAction.move : ι × ThreadAction P → Option (ι × Tickets.Move (ℕ × Submission P))
  | (i, .submit symbolIdx r) => some (i, .start (symbolIdx, r))
  | (i, .next) => some (i, .next)
  | (_, .change _) => none

namespace EngineThreads

section

variable [DecidableEq ι] [LinearOrder P] [Zero P] (symbols : List ℕ)

/-- A thread that is in `submit_order` does nothing else, and one that is not has no next step. -/
def step (s : EngineThreads ι P) :
    ι × ThreadAction P → EngineThreads ι P × List (ThreadEvent P)
  | (i, .submit symbolIdx r) =>
    let orderIds := (s.orderIds.step (i, .start (symbolIdx, r))).1
    match s.orderIds.threads i with
    | .idle => ({ s with orderIds }, [.took s.orderIds.next])
    | _ => ({ s with orderIds }, [])
  | (i, .next) =>
    let orderIds := (s.orderIds.step (i, .next)).1
    match s.orderIds.threads i with
    | .holding (symbolIdx, r) orderId =>
      let served := { s.engine with nextOrderId := orderId }.handle symbols (.submit symbolIdx r)
      ({ engine := served.1, orderIds }, [.submitted orderId symbolIdx r served.2])
    | _ => ({ s with orderIds }, [])
  | (i, .change change) =>
    match s.orderIds.threads i with
    | .idle =>
      let served := s.engine.handle symbols change.request
      ({ s with engine := served.1 }, [.changed change served.2])
    | _ => (s, [])

/-- No thread takes an id while another one is between the first line and the end of the second. -/
def Alone (s : EngineThreads ι P) : ι × ThreadAction P → Prop
  | (i, .submit _ _) => s.orderIds.threads i = .idle → ∀ j, ¬(s.orderIds.threads j).Busy
  | _ => True

end

end EngineThreads

/-! ### What should hold -/

/-- The same books, orders, trades and snapshots, but for the ids of the orders. -/
structure MatchingEngine.IsRenamed (ρ : Equiv.Perm ℕ) (m m' : MatchingEngine P) : Prop where
  entries : ∀ symbolIdx s,
    m'.entries symbolIdx s = (m.entries symbolIdx s).map (Entry.renameId ρ)
  orders : m'.orders = m.orders.map (Order.renameId ρ)
  trades : m'.trades = m.trades.map (Trade.renameId ρ)
  snapshots : m'.snapshots = m.snapshots

section

variable [DecidableEq ι] [LinearOrder P] [Zero P] {symbols : List ℕ}

/-- The calls one after the other, in the order in which they got the lock. -/
def serialRun (symbols : List ℕ) (ρ : Equiv.Perm ℕ) (h : List (ThreadEvent P)) :
    MatchingEngine P × List (Order P) :=
  Machine.run (MatchingEngine.answer symbols) {} (h.filterMap (ThreadEvent.request ρ))

/-- What has been done, and what has been answered, is that of a serial run. -/
structure EngineThreads.Linearizes (symbols : List ℕ) (ρ : Equiv.Perm ℕ)
    (s : EngineThreads ι P) (h : List (ThreadEvent P)) : Prop where
  engine : (serialRun symbols ρ h).1.IsRenamed ρ s.engine
  answers : h.filterMap ThreadEvent.answer?
    = (serialRun symbols ρ h).2.map (Order.renameId ρ)

/-! ### The counter -/

namespace EngineThreads

/-- The counter does not depend on what the orders are. -/
lemma isComponent (symbols : List ℕ) : Machine.IsComponent (step (ι := ι) (P := P) symbols)
    Tickets.Counter.step orderIds ThreadAction.move ThreadEvent.ticket? where
  moves s input k hk := by
    obtain ⟨i, action⟩ := input
    cases action with
    | submit symbolIdx r =>
      cases hk
      cases hi : s.orderIds.threads i <;> simp [step, Tickets.Counter.step, hi, ThreadEvent.ticket?]
    | next =>
      cases hk
      cases hi : s.orderIds.threads i <;> simp [step, Tickets.Counter.step, hi, ThreadEvent.ticket?]
    | change change => cases hk
  rests s input hk := by
    obtain ⟨i, action⟩ := input
    cases action with
    | submit symbolIdx r => cases hk
    | next => cases hk
    | change change =>
      cases hi : s.orderIds.threads i <;> simp [step, hi, ThreadEvent.ticket?]

lemma along_alone_iff {s : EngineThreads ι P} {inputs : List (ι × ThreadAction P)} :
    Machine.Along (step symbols) Alone s inputs ↔
      Machine.Along Tickets.Counter.step Tickets.Counter.Alone s.orderIds
        (inputs.filterMap ThreadAction.move) := by
  rw [← (isComponent symbols).along_iff]
  refine Machine.along_congr (I := fun _ => True) (fun _ _ _ => trivial) ?_ trivial
  rintro s ⟨i, action⟩ -
  cases action <;> simp [Alone, ThreadAction.move, Tickets.Counter.Alone]

end EngineThreads

/-! ### One call after the other -/

section

variable {ρ : Equiv.Perm ℕ} {m : MatchingEngine P} {n symbolIdx orderId : ℕ} {r : Submission P}

omit [LinearOrder P] [Zero P] in
/-- Under its other id, the order has the same client order id. -/
lemma Submission.order_named (r : Submission P) (symbolIdx n : ℕ) :
    r.order symbolIdx (ρ n) = ((r.named (ρ n)).order symbolIdx n).renameId ρ := by
  have hne : (r.named (ρ n)).clOrdId ≠ [] := by
    rw [named]
    split_ifs with hnil
    · exact List.append_ne_nil_of_left_ne_nil (by decide) _
    · exact hnil
  simp only [order, Order.renameId, if_neg hne]
  rfl

namespace MatchingEngine

lemma handle_submit_renameId (m : MatchingEngine P) (n symbolIdx : ℕ) (r : Submission P) :
    { m.renameId ρ n with nextOrderId := ρ m.nextOrderId }.handle symbols (.submit symbolIdx r)
    = Prod.map (·.renameId ρ (ρ m.nextOrderId + 1)) (Option.map (Order.renameId ρ))
      (m.handle symbols (.submit symbolIdx (r.named (ρ m.nextOrderId)))) := by
  have hsubmit := submitOrder_renameId ρ (r.order_named symbolIdx m.nextOrderId)
  by_cases hsymbol : symbolIdx ∈ symbols
  · rw [handle, handle, if_pos hsymbol, if_pos hsymbol]
    exact (congrArg (Prod.map id some) hsubmit).trans rfl
  · rw [handle, handle, if_neg hsymbol, if_neg hsymbol]
    rfl

lemma handle_change_renameId (change : Change P) : (m.renameId ρ n).handle symbols change.request
    = Prod.map (·.renameId ρ n) (Option.map (Order.renameId ρ))
      (m.handle symbols (change.request.renameId ρ.symm)) := by
  cases change with
  | cancel orderId =>
    have hcancel : (m.renameId ρ n).cancelOrder orderId = (m.cancelOrder (ρ.symm orderId)).map
        (Prod.map (·.renameId ρ n) (Order.renameId ρ)) := by
      rw [← cancelOrder_renameId, Equiv.apply_symm_apply]
    rw [Change.request, handle, hcancel, Request.renameId, handle]
    cases m.cancelOrder (ρ.symm orderId) <;> rfl
  | amend orderId newPrice newQuantity =>
    have hamend : (m.renameId ρ n).amendOrder orderId newPrice newQuantity
        = (m.amendOrder (ρ.symm orderId) newPrice newQuantity).map
          (Prod.map (·.renameId ρ n) (Order.renameId ρ)) := by
      rw [← amendOrder_renameId, Equiv.apply_symm_apply]
    rw [Change.request, handle, hamend, Request.renameId, handle]
    cases m.amendOrder (ρ.symm orderId) newPrice newQuantity <;> rfl

lemma nextOrderId_handle_submit :
    (m.handle symbols (.submit symbolIdx r)).1.nextOrderId = m.nextOrderId + 1 := by
  rw [handle]
  split_ifs
  · exact (m.submitOrder_frame symbolIdx r).1
  · rfl

lemma nextOrderId_handle_change (change : Change P) :
    (m.handle symbols (change.request.renameId ρ)).1.nextOrderId = m.nextOrderId := by
  cases change with
  | cancel orderId =>
    rw [Change.request, Request.renameId, handle]
    cases hr : m.cancelOrder (ρ orderId) with
    | none => rfl
    | some r =>
      obtain ⟨o, -, -, -, rfl⟩ := exists_of_cancelOrder hr
      rfl
  | amend orderId newPrice newQuantity =>
    rw [Change.request, Request.renameId, handle]
    cases hr : m.amendOrder (ρ orderId) newPrice newQuantity with
    | none => rfl
    | some r =>
      obtain ⟨o, -, -, -, rfl⟩ := exists_of_amendOrder hr
      rfl

end MatchingEngine

end

open ThreadEvent

section

variable {ρ : Equiv.Perm ℕ} {h : List (ThreadEvent P)} {e : ThreadEvent P} {request : Request P}

lemma serialRun_none (he : e.request ρ = none) :
    serialRun symbols ρ (h ++ [e]) = serialRun symbols ρ h := by
  rw [serialRun, List.filterMap_append, List.filterMap_cons_none he, List.filterMap_nil,
    List.append_nil]
  rfl

lemma serialRun_some (he : e.request ρ = some request) : serialRun symbols ρ (h ++ [e])
    = (((serialRun symbols ρ h).1.handle symbols request).1, (serialRun symbols ρ h).2
      ++ ((serialRun symbols ρ h).1.handle symbols request).2.toList) := by
  rw [serialRun, List.filterMap_append, List.filterMap_cons_some he, List.filterMap_nil,
    Machine.run_snoc]
  rfl

/-- The invariant: the counter of the serial run counts the orders that have been submitted. -/
structure EngineThreads.Serial (symbols : List ℕ) (ρ : Equiv.Perm ℕ) (s : EngineThreads ι P)
    (h : List (ThreadEvent P)) : Prop where
  engine : ∃ n, s.engine = (serialRun symbols ρ h).1.renameId ρ n
  next : (serialRun symbols ρ h).1.nextOrderId = 1000 + (submittedIds h).length
  answers : h.filterMap ThreadEvent.answer?
    = (serialRun symbols ρ h).2.map (Order.renameId ρ)

namespace EngineThreads.Serial

variable {s : EngineThreads ι P} {orderIds : Tickets.Counter ι (ℕ × Submission P)}
  {orderId symbolIdx : ℕ} {r : Submission P}

omit [DecidableEq ι] in
lemma took (hs : s.Serial symbols ρ h) :
    ({ s with orderIds } : EngineThreads ι P).Serial symbols ρ (h ++ [.took orderId]) := by
  have hrun : serialRun symbols ρ (h ++ [.took orderId]) = serialRun symbols ρ h :=
    serialRun_none rfl
  refine ⟨hrun ▸ hs.engine, ?_, ?_⟩
  · rw [hrun, submittedIds_append, submittedIds_took, List.append_nil]
    exact hs.next
  · rw [hrun, List.filterMap_append, ← hs.answers]
    exact List.append_nil _

omit [DecidableEq ι] in
/-- An order is submitted under the id of its turn. -/
lemma submitted (hs : s.Serial symbols ρ h) (hid : ρ (1000 + (submittedIds h).length) = orderId) :
    let served := { s.engine with nextOrderId := orderId }.handle symbols (.submit symbolIdx r)
    (⟨served.1, orderIds⟩ : EngineThreads ι P).Serial symbols ρ
      (h ++ [.submitted orderId symbolIdx r served.2]) := by
  intro served
  obtain ⟨n, hengine⟩ := hs.engine
  set answered :=
    (serialRun symbols ρ h).1.handle symbols (.submit symbolIdx (r.named orderId)) with hanswered
  have hrun : serialRun symbols ρ (h ++ [.submitted orderId symbolIdx r served.2])
      = (answered.1, (serialRun symbols ρ h).2 ++ answered.2.toList) := serialRun_some rfl
  have hserved : served
      = Prod.map (·.renameId ρ (orderId + 1)) (Option.map (Order.renameId ρ)) answered := by
    rw [hanswered, ← hid, ← hs.next, ← MatchingEngine.handle_submit_renameId _ n, ← hengine,
      hs.next, hid]
  refine ⟨⟨orderId + 1, ?_⟩, ?_, ?_⟩
  · rw [hrun]
    exact congrArg Prod.fst hserved
  · rw [hrun, hanswered, MatchingEngine.nextOrderId_handle_submit, hs.next, submittedIds_append,
      submittedIds_submitted, List.length_append, List.length_singleton, Nat.add_assoc]
  · rw [hrun, List.filterMap_append, hs.answers, List.map_append, filterMap_answer?_singleton]
    exact congrArg _ ((congrArg Option.toList (congrArg Prod.snd hserved)).trans
      (Option.toList_map ..))

omit [DecidableEq ι] in
lemma changed (hs : s.Serial symbols ρ h) (change : Change P) :
    let served := s.engine.handle symbols change.request
    ({ s with engine := served.1 } : EngineThreads ι P).Serial symbols ρ
      (h ++ [.changed change served.2]) := by
  intro served
  obtain ⟨n, hengine⟩ := hs.engine
  set answered :=
    (serialRun symbols ρ h).1.handle symbols (change.request.renameId ρ.symm) with hanswered
  have hrun : serialRun symbols ρ (h ++ [.changed change served.2])
      = (answered.1, (serialRun symbols ρ h).2 ++ answered.2.toList) := serialRun_some rfl
  have hserved : served
      = Prod.map (·.renameId ρ n) (Option.map (Order.renameId ρ)) answered :=
    (congrArg (·.handle symbols change.request) hengine).trans
      (MatchingEngine.handle_change_renameId change)
  refine ⟨⟨n, ?_⟩, ?_, ?_⟩
  · rw [hrun]
    exact congrArg Prod.fst hserved
  · rw [hrun, hanswered, MatchingEngine.nextOrderId_handle_change, hs.next, submittedIds_append,
      submittedIds_changed, List.append_nil]
  · rw [hrun, List.filterMap_append, hs.answers, List.map_append, filterMap_answer?_singleton]
    exact congrArg _ ((congrArg Option.toList (congrArg Prod.snd hserved)).trans
      (Option.toList_map ..))

/-- A step, where the submissions so far have got the ids of the permutation in their order. -/
lemma step (hs : s.Serial symbols ρ h) {input : ι × ThreadAction P}
    (hids : Tickets.IsRange ρ 1000 (submittedIds (h ++ (s.step symbols input).2))) :
    (s.step symbols input).1.Serial symbols ρ (h ++ (s.step symbols input).2) := by
  obtain ⟨i, action⟩ := input
  cases action with
  | submit symbolIdx r =>
    cases hi : s.orderIds.threads i with
    | idle =>
      simp only [EngineThreads.step, hi]
      exact hs.took
    | taken | adding | holding =>
      simp only [EngineThreads.step, hi, List.append_nil]
      exact ⟨hs.engine, hs.next, hs.answers⟩
  | next =>
    cases hi : s.orderIds.threads i with
    | holding call orderId =>
      obtain ⟨symbolIdx, r⟩ := call
      simp only [EngineThreads.step, hi] at hids ⊢
      rw [submittedIds_append, submittedIds_submitted] at hids
      exact hs.submitted hids.last
    | idle | taken | adding =>
      simp only [EngineThreads.step, hi, List.append_nil]
      exact ⟨hs.engine, hs.next, hs.answers⟩
  | change change =>
    cases hi : s.orderIds.threads i with
    | idle =>
      simp only [EngineThreads.step, hi]
      exact hs.changed change
    | taken | adding | holding =>
      simp only [EngineThreads.step, hi, List.append_nil]
      exact hs

end EngineThreads.Serial

end

namespace EngineThreads

omit [DecidableEq ι] in
lemma serial_new (symbols : List ℕ) (ρ : Equiv.Perm ℕ) :
    ({} : EngineThreads ι P).Serial symbols ρ [] :=
  ⟨⟨1000, rfl⟩, rfl, rfl⟩

omit [DecidableEq ι] in
lemma Serial.linearizes {ρ : Equiv.Perm ℕ} {s : EngineThreads ι P} {h : List (ThreadEvent P)}
    (hs : s.Serial symbols ρ h) : s.Linearizes symbols ρ h := by
  obtain ⟨n, hengine⟩ := hs.engine
  refine ⟨⟨fun symbolIdx side => ?_, ?_, ?_, ?_⟩, hs.answers⟩
  · rw [hengine, MatchingEngine.entries_renameId]
  · rw [hengine]
    rfl
  · rw [hengine]
    rfl
  · rw [hengine]
    rfl

/-- However the threads take turns, as long as the ids differ the threads do what their calls would
do one after the other. -/
theorem linearizes_of_nodup {inputs : List (ι × ThreadAction P)}
    (hnodup : (submittedIds (Machine.run (step symbols) ({} : EngineThreads ι P) inputs).2).Nodup) :
    ∃ ρ : Equiv.Perm ℕ, (Machine.run (step symbols) ({} : EngineThreads ι P) inputs).1.Linearizes
      symbols ρ (Machine.run (step symbols) ({} : EngineThreads ι P) inputs).2 := by
  obtain ⟨ρ, hρ⟩ := Tickets.exists_isRange 1000 hnodup
  refine ⟨ρ, Serial.linearizes ?_⟩
  revert hρ
  refine Machine.run_induction (h := []) (C := fun _ _ => True)
    (Q := fun (s : EngineThreads ι P) h =>
      Tickets.IsRange ρ 1000 (submittedIds h) → s.Serial symbols ρ h) ?_
    (Machine.along_of_forall (A := fun _ => True) (by simp)) fun _ => serial_new symbols ρ
  intro s h input _ hs hids
  refine (hs ?_).step hids
  rw [submittedIds_append] at hids
  exact hids.of_append

/-- Two threads read the counter before either adds one. A cancel of the bid at 100 then takes the
bid at 101 out of the book. -/
example :
    let calls := [(true, ThreadAction.submit 1 ⟨.buy, .limit, 100, 10, .day, []⟩),
      (false, .submit 1 ⟨.buy, .limit, 101, 10, .day, []⟩)]
    let steps := [true, true, true, false, false, false].map (·, ThreadAction.next)
    let r := Machine.run (step [1]) ({} : EngineThreads Bool ℤ)
      (calls ++ steps ++ [(true, .change (.cancel 1000))])
    tookIds r.2 = [1000, 1000] ∧ (r.1.engine.entries 1 .buy).map Entry.price = [100] ∧
      r.1.engine.orders.map (fun o => (o.price, o.isOpen)) = [(100, false), (101, true)] := by
  decide

end EngineThreads

end

end EuNEx.Dashboard
