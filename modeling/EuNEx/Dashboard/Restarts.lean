import EuNEx.Dashboard.Bridge
import EuNEx.Dashboard.Database

/-!
# Restarts of the dashboard

The next id is a global variable and starts at 1000 in every process, while the table of orders
outlives them. The process may end between two statements that save: what has been written until
then stays.
-/

namespace EuNEx.Dashboard

variable {P : Type*}

/-- What happens to an installation of the dashboard. A crash comes while an input is handled, after
so many of its events. -/
inductive Happening (P : Type*) where
  | input (input : Input P)
  | restart
  | crash (during : Input P) (reached : ℕ)

/-- The process, and all that has been written. `born` are the ids under which new orders have been
saved. -/
structure Installation (P : Type*) where
  app : App P := {}
  written : List (Event P) := []
  born : List ℕ := []

/-- A new order that the Python engine takes: one for an unknown symbol ends in an exception. -/
def Request.taken (symbols : List ℕ) : Request P → Bool
  | .submit symbolIdx _ => symbolIdx ∈ symbols
  | _ => false

/-- A new order that the bridge takes. -/
def Request.sent : Request P → Bool
  | .submit _ _ => true
  | _ => false

/-- A new order that is taken. -/
def App.submits (symbols : List ℕ) (a : App P) : Input P → Bool
  | .request request => if a.cpp then request.sent else request.taken symbols
  | .seed symbolIdx r => (Request.submit symbolIdx r).taken symbols
  | _ => false

/-- The ids of the orders that are saved. -/
def savedIds (events : List (Event P)) : List ℕ := (events.filterMap Event.order?).map Order.orderId

namespace Installation

variable [LinearOrder P] [Zero P] (symbols : List ℕ) (s : Installation P)

/-- The process after an input, whose events are written. -/
def after (input : Input P) : App P :=
  (App.next symbols { s.app with events := [] } input).1

/-- What is written. -/
def writes : Happening P → List (Event P)
  | .input input => (s.after symbols input).events
  | .restart => []
  | .crash during reached => (s.after symbols during).events.take reached

/-- The process that goes on, or a new one. -/
def process : Happening P → App P
  | .input input => s.after symbols input
  | .restart | .crash _ _ => {}

/-- One happening. -/
def step (happening : Happening P) : Installation P × List (Event P) :=
  ({ app := s.process symbols happening
     written := s.written ++ s.writes symbols happening
     born := s.born ++
      if s.app.nextOrderId ∈ savedIds (s.writes symbols happening) then [s.app.nextOrderId]
      else [] }, [])

/-- A new order is saved: for a crash, before it. -/
def Saves : Happening P → Prop
  | .input input => s.app.submits symbols input = true
  | .restart => False
  | .crash during reached => s.app.submits symbols during = true ∧
      s.app.nextOrderId ∈ savedIds ((s.after symbols during).events.take reached)

/-- Where a new order is saved, the table has no order under the next id. -/
def Unused (happening : Happening P) : Prop :=
  s.Saves symbols happening → savedOrders s.written s.app.nextOrderId = none

/-- A new order that is saved leaves the rows of the orders before it as they are. -/
def LeavesRows (happening : Happening P) : Prop :=
  ∀ pre o post, s.writes symbols happening = pre ++ .order o :: post →
    o.orderId = s.app.nextOrderId → ∀ orderId ∈ s.born,
      savedOrders (s.written ++ pre ++ [.order o]) orderId
        = savedOrders (s.written ++ pre) orderId

end Installation

/-! ### What is saved -/

section

variable {o : Order P} {events events' : List (Event P)} {orderId : ℕ}

lemma mem_savedIds : orderId ∈ savedIds events ↔ ∃ o, .order o ∈ events ∧ o.orderId = orderId := by
  simp only [savedIds, List.mem_map, List.mem_filterMap]
  constructor
  · rintro ⟨o, ⟨e, he, ho⟩, rfl⟩
    cases e with
    | order o' =>
      cases ho
      exact ⟨_, he, rfl⟩
    | trade t => cases ho
    | snapshot snap => cases ho
  · rintro ⟨o, ho, rfl⟩
    exact ⟨o, ⟨_, ho, rfl⟩, rfl⟩

lemma savedIds_append : savedIds (events ++ events') = savedIds events ++ savedIds events' := by
  simp [savedIds]

/-- There is a row for each id under which an order has been saved. -/
lemma savedOrders_isSome_iff : (savedOrders (events ++ events') orderId).isSome = true ↔
    (savedOrders events orderId).isSome = true ∨ orderId ∈ savedIds events' := by
  induction events' using List.reverseRecOn with
  | nil => simp [savedIds]
  | append_singleton events' e ih =>
    rw [← List.append_assoc, savedIds_append, List.mem_append, ← or_assoc, ← ih]
    cases e with
    | order o =>
      rw [savedOrders_snoc]
      exact Table.upsert_isSome_iff.trans (by simp [savedIds, Event.order?, or_comm])
    | trade t =>
      rw [savedOrders_append_of_none (by simp [Event.order?])]
      simp [savedIds, Event.order?]
    | snapshot snap =>
      rw [savedOrders_append_of_none (by simp [Event.order?])]
      simp [savedIds, Event.order?]

end

/-! ### The ids of a step -/

/-- A step lists and saves the orders of the list, and with `new` one more, under the next id. -/
structure MatchingEngine.Adds (new : Bool) (m m' : MatchingEngine P) : Prop where
  listed : ∀ o ∈ m'.orders, o.orderId ∈ m.orders.map Order.orderId ∨
    new = true ∧ o.orderId = m.nextOrderId
  saved : ∃ events, m'.events = m.events ++ events ∧
    (∀ orderId ∈ savedIds events,
      orderId ∈ m.orders.map Order.orderId ∨ new = true ∧ orderId = m.nextOrderId) ∧
    (new = true → m.nextOrderId ∈ savedIds events)
  next : m.nextOrderId ≤ m'.nextOrderId ∧ (new = true → m.nextOrderId < m'.nextOrderId)

namespace MatchingEngine.Adds

variable {m m' m'' : MatchingEngine P} {change : Order P → Option (Order P)}

/-- Without a new order, only ids of the list are saved. -/
lemma of_old (hids : m'.orders.map Order.orderId = m.orders.map Order.orderId)
    {events : List (Event P)} (hevents : m'.events = m.events ++ events)
    (hsaved : ∀ orderId ∈ savedIds events, orderId ∈ m.orders.map Order.orderId)
    (hnext : m.nextOrderId ≤ m'.nextOrderId) : m.Adds false m' where
  listed _ ho := .inl (hids ▸ List.mem_map_of_mem ho)
  saved := ⟨events, hevents, fun orderId h => .inl (hsaved orderId h), by simp⟩
  next := ⟨hnext, by simp⟩

lemma refl (m : MatchingEngine P) : m.Adds false m :=
  of_old rfl (List.append_nil _).symm (by simp [savedIds]) le_rfl

lemma old (h : m.Adds false m') {o : Order P} (ho : o ∈ m'.orders) :
    o.orderId ∈ m.orders.map Order.orderId :=
  (h.listed o ho).resolve_right (by simp)

lemma trans (h : m.Adds false m') (h' : m'.Adds false m'') : m.Adds false m'' := by
  obtain ⟨events, hevents, hsaved, -⟩ := h.saved
  obtain ⟨events', hevents', hsaved', -⟩ := h'.saved
  have hback : ∀ orderId ∈ m'.orders.map Order.orderId, orderId ∈ m.orders.map Order.orderId := by
    intro orderId hid
    obtain ⟨o, ho, rfl⟩ := List.mem_map.mp hid
    exact h.old ho
  refine ⟨fun o ho => .inl (hback _ (h'.old ho)), ?_, h.next.1.trans h'.next.1, by simp⟩
  refine ⟨events ++ events', by rw [hevents', hevents, List.append_assoc], ?_, by simp⟩
  intro orderId hid
  rw [savedIds_append] at hid
  rcases List.mem_append.mp hid with hid | hid
  · exact hsaved orderId hid
  · exact .inl (hback orderId ((hsaved' orderId hid).resolve_right (by simp)))

/-- A change of one order writes that order. -/
lemma writeBack (m : MatchingEngine P) (hchange : ∀ o o', change o = some o' →
    o'.orderId = o.orderId) : m.Adds false (m.writeBack change) := by
  refine of_old (map_replaceF hchange) rfl ?_ le_rfl
  intro orderId hid
  obtain ⟨o', ho', rfl⟩ := mem_savedIds.mp hid
  obtain ⟨o'', ho'', heq⟩ := List.mem_map.mp ho'
  cases heq
  obtain ⟨o, ho, hsome⟩ := List.exists_of_findSome?_eq_some (Option.mem_toList.mp ho'')
  rw [hchange o _ hsome]
  exact List.mem_map_of_mem ho

/-- Where the list, the events and the next id are those of another engine. -/
lemma congr {new : Bool} (h : m.Adds new m') (horders : m''.orders = m'.orders)
    (hevents : m''.events = m'.events) (hnext : m''.nextOrderId = m'.nextOrderId) :
    m.Adds new m'' where
  listed := horders ▸ h.listed
  saved := hevents ▸ h.saved
  next := hnext ▸ h.next

lemma orderId_of_changeOpen {id : ℕ} {f : Order P → Order P} (hf : ∀ o, (f o).orderId = o.orderId)
    (o o' : Order P) (h : changeOpen id f o = some o') : o'.orderId = o.orderId := by
  rw [changeOpen] at h
  split at h
  · cases h
    exact hf o
  · cases h

lemma orderId_of_cancelled {id : ℕ} (o o' : Order P) (h : cancelled id o = some o') :
    o'.orderId = o.orderId :=
  orderId_of_changeOpen (f := fun o => { o with status := .cancelled }) (fun _ => rfl) o o' h

lemma orderId_of_amended {id : ℕ} {newPrice : Option P} {newQuantity : Option ℤ} (o o' : Order P)
    (h : amended id newPrice newQuantity o = some o') : o'.orderId = o.orderId :=
  orderId_of_changeOpen (f := fun o => o.amend newPrice newQuantity) (fun _ => rfl) o o' h

variable [LinearOrder P]

lemma matchIncoming (m : MatchingEngine P) (incoming : Order P) :
    m.Adds false (m.matchIncoming incoming).toMatchingEngine := by
  rw [MatchingEngine.matchIncoming]
  split
  · exact refl m
  · have hsweep : m.Adds false (Sweep.sweep Match.visit ⟨m, incoming, []⟩
        (m.entries incoming.symbolIdx incoming.side.opposite)).1.toMatchingEngine := by
      refine (Sweep.sweep_forall (I := fun k : Match P => m.Adds false k.toMatchingEngine)
        (Q := fun _ => True) ?_ (refl m) (by simp)).1
      intro k e k' left hk _ hv
      obtain ⟨rfl, -⟩ := Match.fill_of_visit hv
      refine ⟨hk.trans ?_, by simp⟩
      refine (writeBack k.toMatchingEngine fun o o' hc => ?_).congr rfl rfl rfl
      rw [Entry.eq_of_filled hc]
    exact hsweep.congr rfl rfl rfl

variable [Zero P]

lemma submitOrder (m : MatchingEngine P) (symbolIdx : ℕ) (r : Submission P) :
    m.Adds true (m.submitOrder symbolIdx r).1 := by
  set entered : MatchingEngine P := { m with nextOrderId := m.nextOrderId + 1 } with hentered
  set k := entered.matchIncoming (r.order symbolIdx m.nextOrderId) with hk
  have hadds : entered.Adds false k.toMatchingEngine := matchIncoming entered _
  have hid := orderId_submitOrder m symbolIdx r
  obtain ⟨events, hevents, hsaved, -⟩ := hadds.saved
  have hsettled := k.settle_frame
  obtain ⟨events', hevents', hids⟩ : ∃ events', (m.submitOrder symbolIdx r).1.events
      = m.events ++ events' ∧ savedIds events' = savedIds events ++ [m.nextOrderId] := by
    refine ⟨events ++ .order k.settle.incoming :: (k.settle.matched.map .trade ++
      [.snapshot ((k.settle.updateSnapshot symbolIdx).snapshots symbolIdx)]), ?_, ?_⟩
    · rw [← List.append_assoc]
      exact congrArg (· ++ _) (hsettled.events.trans hevents)
    · rw [← hid, savedIds_append]
      simp only [savedIds, List.filterMap_cons, List.filterMap_append, filterMap_order?_map,
        Event.order?]
      rfl
  constructor
  case listed =>
    intro o ho
    rcases hsettled.listed o ho with ho | rfl
    · exact .inl (hadds.old ho)
    · exact .inr ⟨rfl, hid⟩
  case saved =>
    refine ⟨events', hevents', ?_, ?_⟩ <;> rw [hids]
    · intro orderId hmem
      rcases List.mem_append.mp hmem with hmem | hmem
      · exact .inl ((hsaved orderId hmem).resolve_right (by simp))
      · exact .inr ⟨rfl, List.mem_singleton.mp hmem⟩
    · exact fun _ => List.mem_append_right _ (List.mem_singleton_self _)
  case next =>
    rw [(m.submitOrder_frame symbolIdx r).1]
    exact ⟨Nat.le_succ _, fun _ => Nat.lt_succ_self _⟩

omit [LinearOrder P] in
lemma cancelOrder {m : MatchingEngine P} {id : ℕ} {r : MatchingEngine P × Order P}
    (hr : m.cancelOrder id = some r) : m.Adds false r.1 := by
  obtain ⟨o, -, rfl⟩ := Option.map_eq_some_iff.mp hr
  exact (writeBack m orderId_of_cancelled).congr rfl rfl rfl

lemma amendOrder {m : MatchingEngine P} {id : ℕ} {newPrice : Option P} {newQuantity : Option ℤ}
    {r : MatchingEngine P × Order P} (hr : m.amendOrder id newPrice newQuantity = some r) :
    m.Adds false r.1 := by
  obtain ⟨o, -, rfl⟩ := Option.map_eq_some_iff.mp hr
  exact (writeBack m orderId_of_amended).congr rfl rfl rfl

end MatchingEngine.Adds

namespace MatchingEngine

variable [LinearOrder P] [Zero P] {symbols : List ℕ}

lemma adds_handle (m : MatchingEngine P) (request : Request P) :
    m.Adds (request.taken symbols) (m.handle symbols request).1 := by
  cases request with
  | submit symbolIdx r =>
    rw [handle, Request.taken]
    split
    · rename_i hknown
      rw [decide_eq_true hknown]
      exact .submitOrder m symbolIdx r
    · rename_i hunknown
      rw [decide_eq_false hunknown]
      exact .of_old rfl (List.append_nil _).symm (by simp [savedIds]) (Nat.le_succ _)
  | cancel id =>
    rw [handle]
    cases hr : m.cancelOrder id with
    | none => exact .refl m
    | some r => exact .cancelOrder hr
  | amend id newPrice newQuantity =>
    rw [handle]
    cases hr : m.amendOrder id newPrice newQuantity with
    | none => exact .refl m
    | some r => exact .amendOrder hr

/-- A request to the Python engine, which shares its list. -/
lemma adds_handleShared (m : MatchingEngine P) (request : Request P) :
    m.Adds (request.taken symbols) (m.handleShared symbols request).1 := by
  cases htarget : m.target request with
  | none =>
    rw [handleShared_of_none htarget]
    exact m.adds_handle request
  | some o =>
    by_cases hknown : o.symbolIdx ∈ symbols
    · rw [handleShared_of_known htarget hknown]
      exact m.adds_handle request
    · cases request with
      | submit symbolIdx r => cases htarget
      | cancel id =>
        rw [handleShared_cancel htarget hknown]
        exact .of_old (map_replaceF Adds.orderId_of_cancelled) (List.append_nil _).symm
          (by simp [savedIds]) le_rfl
      | amend id newPrice newQuantity =>
        rw [handleShared_amend htarget hknown]
        exact .refl m

end MatchingEngine

namespace CppEngineBridge

open MatchingEngine (Adds)

variable {a : App P}

/-- A request to the bridge. -/
lemma adds_handle (a : App P) (request : Request P) :
    Adds request.sent a.toMatchingEngine (handle a request).1.toMatchingEngine := by
  cases request with
  | submit symbolIdx r =>
    refine ⟨fun o ho => ?_, ⟨_, rfl, fun orderId hid => ?_, fun _ => ?_⟩, Nat.le_succ _, ?_⟩
    · rcases List.mem_append.mp ho with ho | ho
      · exact .inl (List.mem_map_of_mem ho)
      · rw [List.mem_singleton.mp ho]
        exact .inr ⟨rfl, rfl⟩
    · exact .inr ⟨rfl, List.mem_singleton.mp hid⟩
    · exact List.mem_singleton_self _
    · exact fun _ => Nat.lt_succ_self _
  | cancel id =>
    rw [handle]
    cases hr : cancelOrder a id with
    | none => exact .refl _
    | some r =>
      obtain ⟨o, -, rfl⟩ := Option.map_eq_some_iff.mp hr
      exact .writeBack _ Adds.orderId_of_cancelled
  | amend id newPrice newQuantity =>
    rw [handle]
    cases hr : amendOrder a id newPrice newQuantity with
    | none => exact .refl _
    | some r =>
      obtain ⟨o, -, rfl⟩ := Option.map_eq_some_iff.mp hr
      exact .writeBack _ Adds.orderId_of_amended

lemma adds_recordFill [Zero P] (symbols : List ℕ) (a : App P) (r : ExecReport P) (o : Order P) :
    Adds false a.toMatchingEngine (recordFill a symbols r o).toMatchingEngine := by
  obtain ⟨horders, -, hnext, -⟩ := recordFill_frame (a := a) symbols r o
  obtain ⟨events, hevents, hsaved⟩ : ∃ events,
      (recordFill a symbols r o).events = a.events ++ events ∧ savedIds events = [] := by
    rw [recordFill]
    simp only
    split
    · exact ⟨[], (List.append_nil _).symm, rfl⟩
    · split
      · exact ⟨_, rfl, rfl⟩
      · split
        · exact ⟨_, List.append_assoc .., rfl⟩
        · exact ⟨_, rfl, rfl⟩
  exact .of_old (by rw [horders]) hevents (by simp [hsaved]) hnext.ge

/-- A report saves the order that it is for. -/
lemma adds_handleExecReport [Zero P] (symbols : List ℕ) (a : App P) (r : ExecReport P) :
    Adds false a.toMatchingEngine (handleExecReport a symbols r).toMatchingEngine := by
  cases hp : a.pending r.clOrdId with
  | none =>
    rw [handleExecReport_of_none symbols hp]
    exact .refl _
  | some orderId =>
    have hid : ∀ o o', r.applied orderId o = some o' → o'.orderId = o.orderId := by
      intro o o' hc
      rw [ExecReport.applied] at hc
      split at hc <;> cases hc
      rfl
    have hwritten : Adds false a.toMatchingEngine (a.writeBack (r.applied orderId)) :=
      .writeBack _ hid
    simp only [handleExecReport, hp]
    split
    · exact hwritten
    · split
      · exact .of_old (map_replaceF hid) (List.append_nil _).symm (by simp [savedIds]) le_rfl
      · split
        · exact hwritten.trans (adds_recordFill symbols
            { a with toMatchingEngine := a.writeBack (r.applied orderId) } r _)
        · exact hwritten

end CppEngineBridge

namespace App

variable [LinearOrder P] [Zero P] {symbols : List ℕ}

lemma adds_next (symbols : List ℕ) (a : App P) (input : Input P) :
    a.toMatchingEngine.Adds (a.submits symbols input)
      (a.next symbols input).1.toMatchingEngine := by
  cases input with
  | request request =>
    rw [next, submits]
    split
    · exact CppEngineBridge.adds_handle a request
    · exact a.adds_handleShared request
  | seed symbolIdx r => exact a.adds_handleShared (.submit symbolIdx r)
  | mode cpp started connects =>
    rw [next, setMode_eq]
    exact .refl _
  | report r => exact CppEngineBridge.adds_handleExecReport symbols a r
  | connectionLost => exact .refl _

end App

/-! ### Runs -/

namespace Installation

variable [LinearOrder P] [Zero P] {symbols : List ℕ} {s : Installation P}

/-- The invariant of runs: the orders of the process are below the next id, there is a row for each
id under which an order has been saved, and the orders of the process have been. -/
structure Kept (s : Installation P) : Prop where
  fresh : ∀ o ∈ s.app.orders, o.orderId < s.app.nextOrderId
  born : ∀ o ∈ s.app.orders, o.orderId ∈ s.born
  rows : ∀ orderId, (savedOrders s.written orderId).isSome = true ↔ orderId ∈ s.born

/-- The ids of the process after an input. -/
lemma after_spec (s : Installation P) (symbols : List ℕ) (input : Input P) :
    (∀ o ∈ (s.after symbols input).orders, o.orderId ∈ s.app.orders.map Order.orderId ∨
        s.app.submits symbols input = true ∧ o.orderId = s.app.nextOrderId) ∧
      (∀ orderId ∈ savedIds (s.after symbols input).events,
        orderId ∈ s.app.orders.map Order.orderId ∨
          s.app.submits symbols input = true ∧ orderId = s.app.nextOrderId) ∧
      (s.app.submits symbols input = true →
        s.app.nextOrderId ∈ savedIds (s.after symbols input).events) ∧
      s.app.nextOrderId ≤ (s.after symbols input).nextOrderId ∧
      (s.app.submits symbols input = true →
        s.app.nextOrderId < (s.after symbols input).nextOrderId) := by
  have hadds := App.adds_next symbols { s.app with events := [] } input
  obtain ⟨events, hevents, hsaved, hnew⟩ := hadds.saved
  obtain rfl : (s.after symbols input).events = events := hevents
  exact ⟨hadds.listed, hsaved, hnew, hadds.next⟩

/-- What a step saves. -/
lemma of_mem_writes (h : s.Kept) {happening : Happening P} {orderId : ℕ}
    (hid : orderId ∈ savedIds (s.writes symbols happening)) :
    orderId ∈ s.born ∧ orderId < s.app.nextOrderId ∨
      orderId = s.app.nextOrderId ∧ s.Saves symbols happening := by
  have hinput : ∀ input, orderId ∈ savedIds (s.after symbols input).events →
      orderId ∈ s.born ∧ orderId < s.app.nextOrderId ∨
        orderId = s.app.nextOrderId ∧ s.app.submits symbols input = true := by
    intro input hid
    rcases (s.after_spec symbols input).2.1 orderId hid with hold | ⟨hsubmits, heq⟩
    · obtain ⟨o, ho, rfl⟩ := List.mem_map.mp hold
      exact .inl ⟨h.born o ho, h.fresh o ho⟩
    · exact .inr ⟨heq, hsubmits⟩
  cases happening with
  | input input => exact hinput input hid
  | restart => cases hid
  | crash during reached =>
    obtain ⟨o, ho, rfl⟩ := mem_savedIds.mp hid
    have hall := mem_savedIds.mpr ⟨o, List.mem_of_mem_take ho, rfl⟩
    refine (hinput during hall).imp_right fun hnew => ⟨hnew.1, hnew.2, ?_⟩
    exact hnew.1 ▸ hid

lemma mem_writes_iff (h : s.Kept) {happening : Happening P} :
    s.app.nextOrderId ∈ savedIds (s.writes symbols happening) ↔ s.Saves symbols happening := by
  constructor
  · intro hid
    rcases of_mem_writes h hid with hold | hnew
    · exact absurd hold.2 (lt_irrefl _)
    · exact hnew.2
  · intro hsaves
    cases happening with
    | input input => exact (s.after_spec symbols input).2.2.1 hsaves
    | restart => cases hsaves
    | crash during reached => exact hsaves.2

lemma kept_step (h : s.Kept) (happening : Happening P) : (s.step symbols happening).1.Kept := by
  have hrows : ∀ orderId, (savedOrders (s.written ++ s.writes symbols happening)
      orderId).isSome = true ↔ orderId ∈ (s.step symbols happening).1.born := by
    intro orderId
    rw [savedOrders_isSome_iff, h.rows, step]
    simp only [List.mem_append]
    refine or_congr_right' fun hnot => ?_
    constructor
    · intro hid
      rcases of_mem_writes h hid with hold | ⟨rfl, -⟩
      · exact absurd hold.1 hnot
      · rw [if_pos hid]
        exact List.mem_singleton_self _
    · intro hid
      split at hid
      · rename_i hmem
        exact List.mem_singleton.mp hid ▸ hmem
      · cases hid
  cases happening with
  | input input =>
    obtain ⟨hlisted, -, hnew, hle, hlt⟩ := s.after_spec symbols input
    refine ⟨fun o ho => ?_, fun o ho => ?_, hrows⟩
    · rcases hlisted o ho with hold | ⟨hsubmits, heq⟩
      · obtain ⟨a, ha, hid⟩ := List.mem_map.mp hold
        exact hid ▸ (h.fresh a ha).trans_le hle
      · exact heq.trans_lt (hlt hsubmits)
    · rcases hlisted o ho with hold | ⟨hsubmits, heq⟩
      · obtain ⟨a, ha, hid⟩ := List.mem_map.mp hold
        exact List.mem_append_left _ (hid ▸ h.born a ha)
      · refine List.mem_append_right _ ?_
        rw [writes, if_pos (hnew hsubmits), heq]
        exact List.mem_singleton_self _
  | restart => exact ⟨by simp [step, process], by simp [step, process], hrows⟩
  | crash during reached => exact ⟨by simp [step, process], by simp [step, process], hrows⟩

/-- A new id has not been used exactly if the table has no row for it. -/
lemma nodup_step_iff (h : s.Kept) (hnodup : s.born.Nodup) (happening : Happening P) :
    (s.step symbols happening).1.born.Nodup ∧ s.LeavesRows symbols happening ↔
      s.Unused symbols happening := by
  by_cases hsaves : s.Saves symbols happening
  · have hborn : (s.step symbols happening).1.born = s.born ++ [s.app.nextOrderId] := by
      rw [step, if_pos ((mem_writes_iff h).mpr hsaves)]
    have hunused : s.Unused symbols happening ↔ s.app.nextOrderId ∉ s.born := by
      rw [Unused, ← h.rows, Bool.not_eq_true, Option.isSome_eq_false_iff, Option.isNone_iff_eq_none]
      simp [hsaves]
    rw [hunused, hborn]
    constructor
    · rintro ⟨hafter, -⟩ hmem
      exact (List.nodup_append.mp hafter).2.2 _ hmem _ (List.mem_singleton_self _) rfl
    · intro hnot
      refine ⟨hnodup.append (List.nodup_singleton _) (by simpa using hnot), ?_⟩
      intro pre o post _ hid orderId hmem
      rw [savedOrders_snoc]
      exact writeOrder_of_ne fun heq => hnot (hid ▸ heq ▸ hmem)
  · have hnot : s.app.nextOrderId ∉ savedIds (s.writes symbols happening) :=
      fun hmem => hsaves ((mem_writes_iff h).mp hmem)
    have hborn : (s.step symbols happening).1.born = s.born := by
      rw [step, if_neg hnot, List.append_nil]
    rw [hborn]
    refine iff_of_true ⟨hnodup, ?_⟩ fun h => absurd h hsaves
    intro pre o post hwrites hid
    exact absurd (mem_savedIds.mpr ⟨o, by simp [hwrites], hid⟩) hnot

end Installation

/-- In every run with restarts, each order_id stays with one order, and a new order leaves the rows
of the others as they are, exactly if the table has no row under the id that a new order gets. -/
theorem run_oneOrder_iff [LinearOrder P] [Zero P] (symbols : List ℕ)
    (happenings : List (Happening P)) :
    Machine.Throughout (Installation.step symbols) (fun s => s.born.Nodup) {} happenings ∧
        Machine.Along (Installation.step symbols) (fun s happening =>
          s.LeavesRows symbols happening) {} happenings ↔
      Machine.Along (Installation.step symbols) (fun s happening =>
        s.Unused symbols happening) ({} : Installation P) happenings := by
  refine Machine.throughout_along_iff (A := fun _ _ => True) (I := Installation.Kept)
    (fun s happening _ h => Installation.kept_step h happening)
    (fun s happening _ h hnodup => Installation.nodup_step_iff h hnodup happening)
    (Machine.along_of_forall fun _ _ => trivial) ⟨?_, ?_, ?_⟩ List.nodup_nil <;> simp [savedOrders]

/-- A bid that rests, and after a restart an offer. -/
def offerAfterRestart : List (Happening ℤ) :=
  [.input (.request (.submit 1 ⟨.buy, .limit, 100, 10, .day, []⟩)), .restart,
    .input (.request (.submit 1 ⟨.sell, .limit, 105, 4, .day, []⟩))]

/-- Both have the id 1000, and the row of the bid is given what is open of the offer. -/
theorem not_oneOrder_offerAfterRestart :
    ¬(Machine.Throughout (Installation.step [1]) (fun s => s.born.Nodup) {} offerAfterRestart ∧
      Machine.Along (Installation.step [1]) (fun s happening => s.LeavesRows [1] happening)
        ({} : Installation ℤ) offerAfterRestart) := by
  rintro ⟨hnodup, -⟩
  have hafter : (Machine.run (Installation.step [1]) ({} : Installation ℤ)
      offerAfterRestart).1.born.Nodup := hnodup.2.2.2
  exact absurd hafter (by decide)

end EuNEx.Dashboard
