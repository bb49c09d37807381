import EuNEx.Dashboard.Ownership

/-!
# Which engine an order lives in

Both engines find orders by their ids, in one list. An order of the bridge stays out of the Python
books, and a cancelled order leaves them, exactly as long as the Python engine amends no order of
the bridge and the bridge cancels no order of the Python engine.
-/

namespace EuNEx.Dashboard

variable {P : Type*}

/-- What there is to see of the engines. -/
inductive EngineEvent where
  /-- an order is submitted to the bridge -/
  | bridged (orderId : ℕ)
  /-- the status of the order is `Cancelled` after a step -/
  | cancelled (orderId : ℕ)
  /-- a trade of the Python engine -/
  | traded (buyOrderId sellOrderId : ℕ)
deriving DecidableEq, Repr

namespace App

variable [LinearOrder P] [Zero P] (symbols : List ℕ) (a : App P)

/-- The id that a step gives to an order of the bridge. -/
def bridgedBy : Input P → List EngineEvent
  | .request (.submit _ _) => if a.cpp then [.bridged a.nextOrderId] else []
  | _ => []

/-- The Python engine handles the input. -/
def isPython : Input P → Bool
  | .request _ => !a.cpp
  | .seed _ _ => true
  | _ => false

/-- The trades that the Python engine adds in a step. -/
def tradedBy (input : Input P) : List EngineEvent :=
  if a.isPython input then
    ((a.next symbols input).1.trades.drop a.trades.length).map fun t =>
      .traded t.buyOrderId t.sellOrderId
  else []

/-- The orders that are cancelled after a step, in the list or as it returns them. -/
def cancelledAfter (input : Input P) : List EngineEvent :=
  let r := a.next symbols input
  ((r.1.orders ++ r.2.toList).filter fun o => o.status = .cancelled).map fun o =>
    .cancelled o.orderId

/-- One step, with what there is to see of it. -/
def step (a : App P) (input : Input P) : App P × List EngineEvent :=
  ((a.next symbols input).1,
    a.bridgedBy input ++ (a.tradedBy symbols input ++ a.cancelledAfter symbols input))

/-! ### What should hold -/

omit [LinearOrder P] [Zero P] in
/-- The order is cancelled: by its status in the list, or, if it is not there, by the status it had
when it was returned. -/
def IsCancelled (h : List EngineEvent) (orderId : ℕ) : Prop :=
  (∃ o ∈ a.orders, o.orderId = orderId ∧ o.status = .cancelled) ∨
    .cancelled orderId ∈ h ∧ ∀ o ∈ a.orders, o.orderId ≠ orderId

omit [LinearOrder P] [Zero P] in
/-- Each order lives in one engine. -/
structure Separate (a : App P) (h : List EngineEvent) : Prop where
  bridged : ∀ id, .bridged id ∈ h → ∀ symbolIdx s, ∀ e ∈ a.entries symbolIdx s, e.orderId ≠ id
  cancelled : ∀ id, a.IsCancelled h id → ∀ symbolIdx s, ∀ e ∈ a.entries symbolIdx s,
    e.orderId ≠ id
  traded : Machine.Always (fun before event => ∀ buy sell, event = .traded buy sell →
    ∀ id, .cancelled id ∈ before → buy ≠ id ∧ sell ≠ id) h

omit [LinearOrder P] [Zero P] in
/-- The Python engine amends no open order of the bridge, and the bridge cancels no open order of
the Python engine. -/
def KeepsApart (h : List EngineEvent) : Input P → Prop
  | .request (.cancel id) => a.cpp = true →
      ∀ o ∈ a.orders, o.orderId = id → o.isOpen = true → .bridged id ∈ h
  | .request (.amend id _ _) => a.cpp = false →
      ∀ o ∈ a.orders, o.orderId = id → o.isOpen = true → o.symbolIdx ∈ symbols → .bridged id ∉ h
  | _ => True

end App

/-! ### Runs -/

namespace App

open MatchingEngine (Served Follows)

variable {symbols : List ℕ} {a : App P} {h : List EngineEvent} {input : Input P} {id : ℕ}

/-- The invariant of runs. -/
structure Owned (symbols : List ℕ) (a : App P) (h : List EngineEvent) : Prop where
  owns : a.Owns symbols (fun id => .bridged id ∉ h) fun id => .cancelled id ∈ h
  bridged : ∀ id, .bridged id ∈ h → id < a.nextOrderId
  pending : ∀ clOrdId id, a.pending clOrdId = some id → .bridged id ∈ h

lemma mem_bridgedBy {event : EngineEvent} (hmem : event ∈ a.bridgedBy input) :
    event = .bridged a.nextOrderId ∧ a.cpp = true ∧
      ∃ symbolIdx r, input = .request (.submit symbolIdx r) := by
  cases input with
  | request request =>
    cases request with
    | submit symbolIdx r =>
      rw [bridgedBy] at hmem
      split at hmem
      · rename_i hcpp
        exact ⟨List.mem_singleton.mp hmem, hcpp, symbolIdx, r, rfl⟩
      · cases hmem
    | cancel id => cases hmem
    | amend id newPrice newQuantity => cases hmem
  | _ => cases hmem

section

variable [LinearOrder P] [Zero P]

lemma exists_of_mem_tradedBy {event : EngineEvent} (hmem : event ∈ a.tradedBy symbols input) :
    a.isPython input = true ∧ ∃ t ∈ (a.next symbols input).1.trades.drop a.trades.length,
      event = .traded t.buyOrderId t.sellOrderId := by
  rw [tradedBy] at hmem
  split at hmem
  · rename_i hpython
    obtain ⟨t, ht, rfl⟩ := List.mem_map.mp hmem
    exact ⟨hpython, t, ht, rfl⟩
  · cases hmem

lemma exists_of_mem_cancelledAfter {event : EngineEvent}
    (hmem : event ∈ a.cancelledAfter symbols input) :
    ∃ o, (o ∈ (a.next symbols input).1.orders ∨ o ∈ (a.next symbols input).2) ∧
      o.status = .cancelled ∧ event = .cancelled o.orderId := by
  obtain ⟨o, ho, rfl⟩ := List.mem_map.mp hmem
  obtain ⟨ho, hcancelled⟩ := List.mem_filter.mp ho
  exact ⟨o, (List.mem_append.mp ho).imp_right Option.mem_toList.mp, of_decide_eq_true hcancelled,
    rfl⟩

lemma bridged_mem_step : .bridged id ∈ h ++ (step symbols a input).2 ↔
    .bridged id ∈ h ++ a.bridgedBy input := by
  have htraded : .bridged id ∉ a.tradedBy symbols input := by
    intro hmem
    obtain ⟨-, t, -, ht⟩ := exists_of_mem_tradedBy hmem
    cases ht
  have hcancelled : .bridged id ∉ a.cancelledAfter symbols input := by
    intro hmem
    obtain ⟨o, -, -, ho⟩ := exists_of_mem_cancelledAfter hmem
    cases ho
  simp [step, htraded, hcancelled]

namespace Owned

/-- The Python engine handles the input. -/
lemma served_handlePython (howned : a.Owned symbols h) (request : Request P)
    (hapart : ∀ id newPrice newQuantity, request = .amend id newPrice newQuantity →
      ∀ o ∈ a.orders, o.orderId = id → o.isOpen = true → o.symbolIdx ∈ symbols → .bridged id ∉ h) :
    a.Served symbols (fun id => .bridged id ∉ h) (fun id => .cancelled id ∈ h)
      ((a.handlePython symbols request).1.toMatchingEngine, (a.handlePython symbols request).2) :=
  Served.handleShared howned.owns (fun hmem => (howned.bridged _ hmem).false) request hapart

/-- The trades of the Python engine are between the incoming order and orders that have entries. -/
lemma exists_trades (howned : a.Owned symbols h) (hapart : a.KeepsApart symbols h input)
    (hpython : a.isPython input = true) :
    ∃ ts, (a.next symbols input).1.trades = a.trades ++ ts ∧
      ∀ t ∈ ts, t.Between fun id => id = a.nextOrderId ∨ ∃ symbolIdx s, id ∈ a.ids symbolIdx s := by
  cases input with
  | request request =>
    have hcpp : a.cpp = false := by simpa [isPython] using hpython
    rw [App.next, hcpp]
    refine (howned.served_handlePython request fun id newPrice newQuantity hrequest => ?_).trades
    subst hrequest
    exact hapart hcpp
  | seed symbolIdx r =>
    exact (howned.served_handlePython (.submit symbolIdx r) fun _ _ _ h => by cases h).trades
  | _ => cases hpython

/-- What a step leaves behind, as long as the two engines keep apart. -/
lemma follows_next (howned : a.Owned symbols h) (hapart : a.KeepsApart symbols h input) :
    a.Follows symbols (fun id => .bridged id ∉ h ++ a.bridgedBy input)
      (fun id => .cancelled id ∈ h)
      ((a.next symbols input).1.toMatchingEngine, (a.next symbols input).2) := by
  have hfree : .bridged a.nextOrderId ∉ h := fun hmem => (howned.bridged _ hmem).false
  cases input with
  | request request =>
    by_cases hcpp : a.cpp = true
    · have hold : ∀ id < a.nextOrderId,
          .bridged id ∉ h ++ a.bridgedBy (.request request) ↔ .bridged id ∉ h := by
        intro id hlt
        rw [List.mem_append, not_or, and_iff_left]
        intro hmem
        obtain ⟨heq, -⟩ := mem_bridgedBy hmem
        cases heq
        exact hlt.false
      have howns := howned.owns.mono hold fun id hgone => .inl hgone
      rw [App.next, if_pos hcpp]
      refine (CppEngineBridge.served_handle howns request ?_ ?_).toFollows
      · rintro symbolIdx r rfl
        simp [bridgedBy, hcpp]
      · rintro id rfl o ho hid hopen
        exact not_not_intro (List.mem_append_left _ (hapart hcpp o ho hid hopen))
    · have hnone : a.bridgedBy (.request request) = [] :=
        List.eq_nil_iff_forall_not_mem.mpr fun event hmem => hcpp (mem_bridgedBy hmem).2.1
      rw [App.next, if_neg hcpp, hnone, List.append_nil]
      refine (howned.served_handlePython request
        fun id newPrice newQuantity hrequest => ?_).toFollows
      subst hrequest
      exact hapart (Bool.eq_false_iff.mpr hcpp)
  | seed symbolIdx r =>
    simp only [bridgedBy, List.append_nil]
    exact (howned.served_handlePython (.submit symbolIdx r) fun _ _ _ h => by cases h).toFollows
  | mode cpp started connects =>
    simp only [bridgedBy, List.append_nil]
    rw [App.next, setMode_eq]
    exact .of_none howned.owns le_rfl
  | report r =>
    simp only [bridgedBy, List.append_nil]
    refine .of_none (CppEngineBridge.owns_handleExecReport howned.owns r fun id hid => ?_) ?_
    · exact not_not_intro (howned.pending r.clOrdId id hid)
    · cases hid : a.pending r.clOrdId with
      | none => rw [App.next, CppEngineBridge.handleExecReport_of_none symbols hid]
      | some id => exact (CppEngineBridge.handleExecReport_frame symbols hid).2.2.1.ge
  | connectionLost =>
    simp only [bridgedBy, List.append_nil]
    exact .of_none howned.owns le_rfl

/-- Only a new order of the bridge is awaited anew. -/
lemma pending_next (howned : a.Owned symbols h) {clOrdId : List Char}
    (hid : (a.next symbols input).1.pending clOrdId = some id) :
    .bridged id ∈ h ++ a.bridgedBy input := by
  have hold : ∀ {clOrdId}, a.pending clOrdId = some id → .bridged id ∈ h ++ a.bridgedBy input :=
    fun hid => List.mem_append_left _ (howned.pending _ id hid)
  cases input with
  | request request =>
    by_cases hcpp : a.cpp = true
    · rw [App.next, if_pos hcpp] at hid
      rcases CppEngineBridge.pending_handle hid with hid | ⟨rfl, symbolIdx, r, rfl⟩
      · exact hold hid
      · exact List.mem_append_right _ (by simp [bridgedBy, hcpp])
    · rw [App.next, if_neg hcpp] at hid
      exact hold hid
  | seed symbolIdx r => exact hold hid
  | mode cpp started connects =>
    rw [App.next, setMode_eq] at hid
    exact hold hid
  | report r =>
    cases hr : a.pending r.clOrdId with
    | none =>
      rw [App.next, CppEngineBridge.handleExecReport_of_none symbols hr] at hid
      exact hold hid
    | some id =>
      rw [App.next, (CppEngineBridge.handleExecReport_frame symbols hr).2.2.2] at hid
      exact hold hid
  | connectionLost => exact hold hid

lemma step (howned : a.Owned symbols h) (hapart : a.KeepsApart symbols h input) :
    (App.step symbols a input).1.Owned symbols (h ++ (App.step symbols a input).2) := by
  have hfollows := howned.follows_next hapart
  constructor
  case owns =>
    refine hfollows.owns.mono (fun id _ => not_congr bridged_mem_step) fun id hgone => ?_
    rcases List.mem_append.mp hgone with hgone | hgone
    · exact .inl hgone
    · rcases List.mem_append.mp hgone with hmem | hmem
      · obtain ⟨heq, -⟩ := mem_bridgedBy hmem
        cases heq
      · rcases List.mem_append.mp hmem with hmem | hmem
        · obtain ⟨-, t, -, heq⟩ := exists_of_mem_tradedBy hmem
          cases heq
        · obtain ⟨o, ho, hcancelled, heq⟩ := exists_of_mem_cancelledAfter hmem
          cases heq
          have hlisted : o ∈ (a.next symbols input).1.orders →
              ∀ o' ∈ (a.next symbols input).1.orders, o'.orderId = o.orderId →
                o'.status = .cancelled := by
            intro ho o' ho' hid
            rwa [hfollows.owns.eq_of_orderId ho' ho hid]
          rcases ho with ho | ho
          · exact .inr ⟨hfollows.owns.fresh o ho, hlisted ho⟩
          · obtain ⟨hlt, ho | hnone⟩ := hfollows.returned o ho
            · exact .inr ⟨hlt, hlisted ho⟩
            · exact .inr ⟨hlt, fun o' ho' hid => absurd hid (hnone o' ho')⟩
  case bridged =>
    intro id hmem
    rcases List.mem_append.mp (bridged_mem_step.mp hmem) with hmem | hmem
    · exact (howned.bridged id hmem).trans_le hfollows.next
    · obtain ⟨heq, hcpp, symbolIdx, r, rfl⟩ := mem_bridgedBy hmem
      cases heq
      have hnext : (App.step symbols a (.request (.submit symbolIdx r))).1.nextOrderId
          = a.nextOrderId + 1 := by
        simp [App.step, App.next, hcpp, CppEngineBridge.handle, CppEngineBridge.submitOrder]
      exact hnext ▸ Nat.lt_succ_self _
  case pending =>
    intro clOrdId id hid
    exact bridged_mem_step.mpr (howned.pending_next hid)

omit [LinearOrder P] [Zero P] in
/-- An order of the bridge has no entry. -/
lemma orderId_ne_of_bridged (howned : a.Owned symbols h) (hid : .bridged id ∈ h) {symbolIdx : ℕ}
    {s : Side} {e : Entry P} (he : e ∈ a.entries symbolIdx s) : e.orderId ≠ id := by
  rintro rfl
  obtain ⟨-, -, -, -, -, -, hown⟩ := howned.owns.exists_order (MatchingEngine.mem_ids_of_mem he)
  exact hown hid

omit [LinearOrder P] [Zero P] in
/-- A cancelled order has no entry. -/
lemma orderId_ne_of_isCancelled (howned : a.Owned symbols h) (hid : a.IsCancelled h id)
    {symbolIdx : ℕ} {s : Side} {e : Entry P} (he : e ∈ a.entries symbolIdx s) :
    e.orderId ≠ id := by
  rintro rfl
  obtain ⟨o, ho, hoid, hopen, -⟩ := howned.owns.exists_order (MatchingEngine.mem_ids_of_mem he)
  rcases hid with ⟨o', ho', hid, hcancelled⟩ | ⟨-, hnone⟩
  · obtain rfl := howned.owns.eq_of_orderId ho ho' (hoid.trans hid.symm)
    simp [Order.isOpen, hcancelled] at hopen
  · exact hnone o ho hoid

end Owned

/-- A step with which the two engines keep apart. -/
lemma Separate.step (hsep : a.Separate h) (howned : a.Owned symbols h)
    (hapart : a.KeepsApart symbols h input) :
    (App.step symbols a input).1.Separate (h ++ (App.step symbols a input).2) where
  bridged id hid symbolIdx s e he := (howned.step hapart).orderId_ne_of_bridged hid he
  cancelled id hid symbolIdx s e he := (howned.step hapart).orderId_ne_of_isCancelled hid he
  traded := by
    rw [Machine.always_append]
    refine ⟨hsep.traded, ?_⟩
    rw [App.step, Machine.always_append, Machine.always_append]
    refine ⟨Machine.always_of_mem ?_, Machine.always_of_mem ?_, Machine.always_of_mem ?_⟩
    · rintro event hmem pre - buy sell rfl
      obtain ⟨heq, -⟩ := mem_bridgedBy hmem
      cases heq
    · rintro event hmem pre hpre buy sell rfl id hid
      obtain ⟨hpython, t, ht, heq⟩ := exists_of_mem_tradedBy hmem
      cases heq
      have hgone : .cancelled id ∈ h := by
        rcases List.mem_append.mp hid with hid | hid
        · exact hid
        · rcases List.mem_append.mp hid with hid | hid
          · obtain ⟨heq, -⟩ := mem_bridgedBy hid
            cases heq
          · obtain ⟨-, t', -, heq⟩ := exists_of_mem_tradedBy (hpre _ hid)
            cases heq
      obtain ⟨ts, htrades, hts⟩ := howned.exists_trades hapart hpython
      rw [htrades, List.drop_left] at ht
      have hne : ∀ id', (id' = a.nextOrderId ∨ ∃ symbolIdx s, id' ∈ a.ids symbolIdx s) →
          id' ≠ id := by
        rintro id' (rfl | ⟨symbolIdx, s, hmem⟩) rfl
        · exact (howned.owns.gone _ hgone).1.false
        · exact howned.owns.not_gone hmem hgone
      exact ⟨hne _ (hts t ht).1, hne _ (hts t ht).2⟩
    · rintro event hmem pre - buy sell rfl
      obtain ⟨o, -, -, heq⟩ := exists_of_mem_cancelledAfter hmem
      cases heq

/-- The two engines keep apart in a step that leaves them so. -/
lemma Separate.keepsApart (howned : a.Owned symbols h)
    (hsep : (App.step symbols a input).1.Separate (h ++ (App.step symbols a input).2)) :
    a.KeepsApart symbols h input := by
  cases input with
  | request request =>
    cases request with
    | submit symbolIdx r => trivial
    | cancel id =>
      rintro hcpp o ho rfl hopen
      by_contra hown
      have hfind : a.orders.findSome? (MatchingEngine.cancelled o.orderId)
          = some { o with status := .cancelled } := howned.owns.findSome_changeOpen ho hopen _
      have hstep : (App.step symbols a (.request (.cancel o.orderId))).1
          = { a with toMatchingEngine := a.writeBack (MatchingEngine.cancelled o.orderId) } := by
        simp only [App.step, App.next, hcpp, if_true, CppEngineBridge.handle,
          CppEngineBridge.cancelOrder, hfind, Option.map_some, Option.getD_some, Prod.map_fst, id]
      rw [hstep] at hsep
      have hentry : o.orderId ∈ a.ids o.symbolIdx o.side :=
        (howned.owns.mem_ids_self ho).mpr ⟨Order.restsIn_iff.mpr ⟨hopen, rfl, rfl⟩, hown⟩
      obtain ⟨e, he, hid⟩ := List.mem_map.mp hentry
      exact hsep.cancelled o.orderId (.inl ⟨_, Served.mem_writeBack hfind, rfl, rfl⟩) _ _ e he hid
    | amend id newPrice newQuantity =>
      rintro hcpp o ho rfl hopen hknown hbridged
      set o' := o.amend newPrice newQuantity with ho'
      have hfind : a.orders.findSome? (MatchingEngine.amended o.orderId newPrice newQuantity)
          = some o' := howned.owns.findSome_changeOpen ho hopen _
      have htarget : a.target (.amend o.orderId newPrice newQuantity) = some o :=
        howned.owns.find_open ho hopen
      have hentry : o.orderId ∈ (App.step symbols a (.request (.amend o.orderId newPrice
          newQuantity))).1.ids o.symbolIdx o.side := by
        simp only [App.step, App.next, hcpp, Bool.false_eq_true, if_false, handlePython,
          MatchingEngine.handleShared_of_known htarget hknown, MatchingEngine.handle,
          MatchingEngine.amendOrder, hfind, Option.map_some, Option.getD_some, Prod.map_fst]
        exact (MatchingEngine.mem_ids_insertResting (o := o') hopen).mpr
          (.inr ⟨rfl, Order.restsIn_iff.mpr ⟨hopen, rfl, rfl⟩⟩)
      obtain ⟨e, he, hid⟩ := List.mem_map.mp hentry
      exact hsep.bridged o.orderId (List.mem_append_left _ hbridged) _ _ e he hid
  | _ => trivial

omit [LinearOrder P] [Zero P] in
lemma Owned.empty : ({} : App P).Owned symbols [] where
  owns :=
    { fresh := fun o ho => by cases ho
      nodup := List.nodup_nil
      mem_ids := fun symbolIdx s id => by simp [MatchingEngine.ids_empty]
      known := fun o ho => by cases ho
      nodup_ids := fun symbolIdx s => by simp [MatchingEngine.ids_empty]
      gone := fun id hid => by cases hid }
  bridged id hid := by cases hid
  pending clOrdId id hid := by cases hid

omit [LinearOrder P] [Zero P] in
lemma Separate.empty : ({} : App P).Separate [] where
  bridged id hid := by cases hid
  cancelled id hid := by
    rcases hid with ⟨o, ho, -⟩ | ⟨hid, -⟩
    · cases ho
    · cases hid
  traded := Machine.always_nil

/-- In every run of the order routes, with switches between the engines, each order lives in one
engine, exactly if the Python engine amends no open order of the bridge and the bridge cancels no
open order of the Python engine. -/
theorem run_separate_iff (symbols : List ℕ) (inputs : List (Input P)) :
    Machine.Throughout (Machine.recording (step symbols)) (fun s => s.1.Separate s.2)
        ({}, []) inputs ↔
      Machine.Along (Machine.recording (step symbols)) (fun s input =>
        s.1.KeepsApart symbols s.2 input) (({} : App P), []) inputs := by
  have htrue : Machine.Along (Machine.recording (step symbols)) (fun _ _ => True)
      (({} : App P), []) inputs := Machine.along_of_forall fun _ _ => trivial
  have hiff : Machine.Throughout (Machine.recording (step symbols)) (fun s => s.1.Separate s.2)
        (({} : App P), []) inputs ∧
        Machine.Along (Machine.recording (step symbols)) (fun _ _ => True) ({}, []) inputs ↔
      Machine.Along (Machine.recording (step symbols)) (fun s input =>
        s.1.KeepsApart symbols s.2 input) ({}, []) inputs := Machine.throughout_along_iff_of_kept
    (A := fun _ _ => True) (I := fun s : App P × List EngineEvent => s.1.Owned symbols s.2)
    (fun s input _ hapart howned _ => howned.step hapart)
    (fun s input _ howned hsep =>
      ⟨fun h => h.1.keepsApart howned, fun hapart => ⟨hsep.step howned hapart, trivial⟩⟩)
    htrue .empty .empty
  simpa [htrue] using hiff

/-- An offer to the Python engine, cancelled after a switch to C++, and a bid to the Python engine
after a switch back. -/
def ghostRun : List (Input ℤ) :=
  [.request (.submit 1 ⟨.sell, .limit, 100, 10, .day, []⟩), .mode true true true,
    .request (.cancel 1000), .mode false true true,
    .request (.submit 1 ⟨.buy, .limit, 100, 10, .day, []⟩)]

/-- The bid trades with the cancelled offer, which still has its entry. -/
theorem not_separate_ghostRun : ¬Machine.Throughout (Machine.recording (step [1]))
    (fun s => s.1.Separate s.2) (({} : App ℤ), []) ghostRun := by
  intro h
  have hghost := h.2.2.2.2.2.traded [.cancelled 1000, .cancelled 1000, .cancelled 1000]
    (.traded 1001 1000) [] (by decide) 1001 1000 rfl 1000 (by decide)
  exact hghost.2 rfl

end

end App

end EuNEx.Dashboard
