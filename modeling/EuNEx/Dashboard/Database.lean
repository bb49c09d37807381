import EuNEx.Dashboard.Agreement
import EuNEx.Dashboard.Executed
import EuNEx.Lib.Table

/-!
# The table of orders

`dashboard/database.py`. An order is saved wherever it is broadcast, so the table is what the
events of the engine make of an empty one. A row that exists is updated in two columns only: it
keeps the price and the quantity under which its order was submitted. A row holds integers of 64
bits; where an order has a longer one, `save_order` raises an exception in the middle of the call.
-/

namespace EuNEx.Dashboard

variable {P : Type*}

/-- The statement of `save_order`. -/
def writeOrder (orders : Table ℕ (Order P)) (order : Order P) : Table ℕ (Order P) :=
  orders.upsert order.orderId order fun row =>
    { row with remainingQty := order.remainingQty, status := order.status }

/-- `save_order`, or `none` for the `OverflowError` of `sqlite3`. -/
def saveOrder (orders : Table ℕ (Order P)) (order : Order P) : Option (Table ℕ (Order P)) :=
  if order.Storable then some (writeOrder orders order) else none

/-- What an event does to the table: an order that is broadcast has been saved. -/
def Event.save (orders : Table ℕ (Order P)) : Event P → Table ℕ (Order P)
  | .order o => writeOrder orders o
  | _ => orders

/-- The table of orders after these events. -/
def savedOrders (events : List (Event P)) : Table ℕ (Order P) :=
  events.foldl Event.save fun _ => none

/-! ### Calls that raise -/

namespace MatchingEngine

variable (m : MatchingEngine P)

/-- Whether `save_order` returns. -/
def saves (order : Order P) : Bool := (saveOrder (savedOrders m.events) order).isSome

/-- The end of a call: what comes after `save_order` comes to nothing if that raises. -/
def saving (r : MatchingEngine P × Order P) : MatchingEngine P × Order P :=
  if m.saves r.2 then r else ({ r.1 with events := m.events }, r.2)

end MatchingEngine

/-- The loop variables of `_match`, and whether it has been left by an exception. -/
structure Saving (P : Type*) extends Match P where
  raised : Bool := false

namespace Saving

variable (k : Saving P) (resting : Entry P)

/-- The loop body. If the order behind the entry cannot be saved, it has changed all the same, and
so have the entry and the order in hand, but there is no trade. -/
def fill : Saving P × Option (Entry P) :=
  let (filled, left) := k.toMatch.fill resting
  if (k.orders.findSome? (k.left resting).filled).all k.saves then ({ toMatch := filled }, left)
  else
    ({ toMatch := { k.toMatch with orders := filled.orders, incoming := filled.incoming }
       raised := true }, left)

/-- One turn of the `while` loop. -/
def visit [LinearOrder P] (k : Saving P) (resting : Entry P) :
    Option (Saving P × Option (Entry P)) :=
  if k.raised ∨ k.incoming.remainingQty ≤ 0 ∨ k.incoming.priceOk resting.price = false then none
  else some (k.fill resting)

end Saving

namespace MatchingEngine

variable [LinearOrder P] (m : MatchingEngine P)

/-- `_match`. -/
def matchSaving (incoming : Order P) : Saving P :=
  if incoming.tif = .fok ∧ m.available incoming < incoming.quantity then
    { toMatch := ⟨m, { incoming with status := .rejected }, []⟩ }
  else
    let r := Sweep.sweep Saving.visit { toMatch := ⟨m, incoming, []⟩ }
      (m.entries incoming.symbolIdx incoming.side.opposite)
    { toMatch := { r.1.toMatch with
        toMatchingEngine := r.1.setEntries incoming.symbolIdx incoming.side.opposite r.2 }
      raised := r.1.raised }

variable [Zero P]

/-- `submit_order`, with the order it has made. -/
def submitSaving (symbolIdx : ℕ) (r : Submission P) : MatchingEngine P × Order P :=
  let k := { m with nextOrderId := m.nextOrderId + 1 }.matchSaving (r.order symbolIdx m.nextOrderId)
  if k.raised then (k.toMatchingEngine, k.incoming)
  else
    let settled := k.toMatch.settle
    settled.saving (settled.publish symbolIdx)

/-- A request, with the order that it has made or changed, whether it returns it or raises. -/
def attempt (symbols : List ℕ) (m : MatchingEngine P) :
    Request P → MatchingEngine P × List (Order P)
  | .submit symbolIdx r =>
    if symbolIdx ∈ symbols then Prod.map id (fun o => [o]) (m.submitSaving symbolIdx r)
    else ({ m with nextOrderId := m.nextOrderId + 1 }, [])
  | .cancel orderId =>
    ((m.cancelOrder orderId).map fun r => Prod.map id (fun o => [o]) (m.saving r)).getD (m, [])
  | .amend orderId newPrice newQuantity =>
    ((m.amendOrder orderId newPrice newQuantity).map fun r =>
      Prod.map id (fun o => [o]) (m.saving r)).getD (m, [])

end MatchingEngine

/-! ### Rows -/

/-- There is a row for the order, with its price, quantity, open quantity and status. -/
def Order.IsSaved (orders : Table ℕ (Order P)) (o : Order P) : Prop :=
  ∃ row, orders o.orderId = some row ∧ row.price = o.price ∧ row.quantity = o.quantity ∧
    row.remainingQty = o.remainingQty ∧ row.status = o.status

instance [DecidableEq P] (orders : Table ℕ (Order P)) (o : Order P) :
    Decidable (o.IsSaved orders) :=
  decidable_of_iff ((orders o.orderId).map (fun row =>
      (row.price, row.quantity, row.remainingQty, row.status))
    = some (o.price, o.quantity, o.remainingQty, o.status)) (by simp [Order.IsSaved])

section

variable {orders : Table ℕ (Order P)} {o o' : Order P} {events events' : List (Event P)}

lemma writeOrder_of_ne {orderId : ℕ} (h : orderId ≠ o.orderId) :
    writeOrder orders o orderId = orders orderId := Table.upsert_of_ne h

lemma savedOrders_append : savedOrders (events ++ events')
    = events'.foldl Event.save (savedOrders events) := List.foldl_append ..

lemma savedOrders_snoc : savedOrders (events ++ [.order o]) = writeOrder (savedOrders events) o :=
  savedOrders_append

/-- Trades and snapshots are not saved there. -/
lemma savedOrders_append_of_none (h : ∀ e ∈ events', e.order? = none) :
    savedOrders (events ++ events') = savedOrders events := by
  rw [savedOrders_append]
  induction events' with
  | nil => rfl
  | cons e events' ih =>
    have he : e.save (savedOrders events) = savedOrders events := by
      cases e with
      | order o => simp [Event.order?] at h
      | trade t => rfl
      | snapshot snap => rfl
    rw [List.foldl_cons, he]
    exact ih fun e' he' => h e' (List.mem_cons_of_mem _ he')

/-- An order that is saved again shows what has changed exactly if its price and its quantity have
not. -/
lemma Order.IsSaved.save_iff (h : o.IsSaved orders) (hid : o'.orderId = o.orderId) :
    o'.IsSaved (writeOrder orders o') ↔ o'.price = o.price ∧ o'.quantity = o.quantity := by
  obtain ⟨row, hrow, hprice, hquantity, -, -⟩ := h
  rw [← hid] at hrow
  have hsaved : writeOrder orders o' o'.orderId
      = some { row with remainingQty := o'.remainingQty, status := o'.status } :=
    Table.upsert_of_some hrow
  constructor
  · rintro ⟨row', hrow', hprice', hquantity', -⟩
    rw [hsaved] at hrow'
    cases hrow'
    exact ⟨hprice'.symm.trans hprice, hquantity'.symm.trans hquantity⟩
  · rintro ⟨hp, hq⟩
    exact ⟨_, hsaved, hprice.trans hp.symm, hquantity.trans hq.symm, rfl, rfl⟩

lemma Order.IsSaved.save_of_ne (h : o.IsSaved orders) (hid : o.orderId ≠ o'.orderId) :
    o.IsSaved (writeOrder orders o') := by
  obtain ⟨row, hrow, hshows⟩ := h
  exact ⟨row, (writeOrder_of_ne hid).trans hrow, hshows⟩

/-- A new order gets a row with all of its columns. -/
lemma isSaved_writeOrder (h : orders o.orderId = none) : o.IsSaved (writeOrder orders o) :=
  ⟨o, Table.upsert_of_none h, rfl, rfl, rfl, rfl⟩

end

lemma Order.keeps_amend_iff (o : Order P) {newPrice : Option P} {newQuantity : Option ℤ} :
    (o.amend newPrice newQuantity).price = o.price ∧
        (o.amend newPrice newQuantity).quantity = o.quantity ↔
      (∀ price ∈ newPrice, price = o.price) ∧ ∀ quantity ∈ newQuantity, quantity = o.quantity := by
  cases newPrice <;> cases newQuantity <;> simp [amend]

/-! ### Matching -/

/-- The orders of the list have their rows, others that are in no book have theirs, and the order in
hand has none. -/
structure Match.Saved (k : Match P) (others : List (Order P)) : Prop where
  listed : ∀ o ∈ k.orders, o.IsSaved (savedOrders k.events)
  outside : ∀ o ∈ others, o.IsSaved (savedOrders k.events)
  apart : ∀ o ∈ others, ∀ a ∈ k.orders, a.orderId ≠ o.orderId
  new : savedOrders k.events k.incoming.orderId = none

/-- All rows are those of ids that have been given out. -/
def Match.RowsBelow (k : Match P) : Prop :=
  ∀ orderId, k.nextOrderId ≤ orderId → savedOrders k.events orderId = none

section

variable [LinearOrder P] {k : Match P} {e : Entry P} {others : List (Order P)} {symbolIdx : ℕ}
  {s : Side} {l : List (Entry P)}

lemma Match.Saved.fill (h : k.Saved others) (hk : (k.setEntries symbolIdx s l).InStep)
    (he : e ∈ l) : (k.fill e).1.Saved others := by
  obtain ⟨o, ho, -, -, -, rfl, as, bs, horders, horders', hevents⟩ := hk.fill_written he
  have hid : (o.fill k.incoming.remainingQty).orderId = o.orderId := rfl
  have hsaved :
      (o.fill k.incoming.remainingQty).IsSaved (savedOrders (k.fill o.entry).1.events) := by
    rw [hevents, savedOrders_snoc, (h.listed o ho).save_iff hid]
    exact ⟨rfl, rfl⟩
  have hkeep : ∀ a : Order P, a.IsSaved (savedOrders k.events) → a.orderId ≠ o.orderId →
      a.IsSaved (savedOrders (k.fill o.entry).1.events) := by
    intro a ha hne
    rw [hevents, savedOrders_snoc]
    exact ha.save_of_ne hne
  constructor
  case listed =>
    rw [horders']
    intro a ha
    rcases (mem_replaced_iff (horders ▸ hk.nodup)).mp ha with rfl | ⟨ha, hne⟩
    · exact hsaved
    · exact hkeep a (h.listed a (horders ▸ ha)) hne
  case outside => exact fun a ha => hkeep a (h.outside a ha) (h.apart a ha o ho).symm
  case apart =>
    intro a ha b hb
    obtain ⟨b₀, hb₀, heq⟩ := (fill_frame k o.entry).exists_old hb
    exact heq ▸ h.apart a ha b₀ hb₀
  case new =>
    rw [hevents, savedOrders_snoc]
    refine (writeOrder_of_ne fun heq => ?_).trans h.new
    obtain ⟨row, hrow, -⟩ := h.listed o ho
    rw [← hid, ← show k.incoming.orderId = _ from heq, h.new] at hrow
    cases hrow

lemma Match.RowsBelow.fill (h : k.RowsBelow) (hk : (k.setEntries symbolIdx s l).InStep)
    (he : e ∈ l) : (k.fill e).1.RowsBelow := by
  obtain ⟨o, ho, -, -, -, rfl, -, -, -, -, hevents⟩ := hk.fill_written he
  intro orderId hle
  have hid : o.orderId < k.nextOrderId := hk.fresh o ho
  have hne : orderId ≠ (o.fill k.incoming.remainingQty).orderId := (hid.trans_le hle).ne'
  rw [hevents, savedOrders_snoc, writeOrder_of_ne hne]
  exact h orderId hle

end

namespace MatchingEngine

variable [LinearOrder P] {m m' : MatchingEngine P} {incoming : Order P} {others : List (Order P)}

lemma matchIncoming_saved (hm : m.InStep) (h : Match.Saved ⟨m, incoming, []⟩ others) :
    (m.matchIncoming incoming).Saved others :=
  matchIncoming_keeps (I := fun k => k.Saved others) hm h (fun _ _ _ _ hk he h => h.fill hk he)
    (fun _ _ h => ⟨h.listed, h.outside, h.apart, h.new⟩)
    fun _ _ h => ⟨h.listed, h.outside, h.apart, h.new⟩

/-! ### Requests -/

/-- The row of every order shows the order: of those in the list, and of those that came to no
book. -/
structure Saved (m : MatchingEngine P) (returned : List (Order P)) : Prop where
  listed : ∀ o ∈ m.orders, o.IsSaved (savedOrders m.events)
  returned : ∀ o ∈ returned, (∀ a ∈ m.orders, a.orderId ≠ o.orderId) →
    o.IsSaved (savedOrders m.events)

/-- An order is made of integers that a row holds. -/
def StoresNew (symbols : List ℕ) (m : MatchingEngine P) : Request P → Prop
  | .submit symbolIdx r => symbolIdx ∈ symbols → (r.order symbolIdx m.nextOrderId).Storable
  | _ => True

/-- An amend leaves its order at its price and at its quantity. -/
def KeepsTerms (m : MatchingEngine P) : Request P → Prop
  | .amend orderId newPrice newQuantity => ∀ o ∈ m.orders, o.orderId = orderId → o.isOpen = true →
      (∀ price ∈ newPrice, price = o.price) ∧ ∀ quantity ∈ newQuantity, quantity = o.quantity
  | _ => True

/-- The invariant of runs: all ids have been given out. -/
structure Numbered (m : MatchingEngine P) (returned : List (Order P)) : Prop where
  inStep : m.InStep
  returned : ∀ o ∈ returned, o.orderId < m.nextOrderId
  rows : ∀ orderId, m.nextOrderId ≤ orderId → savedOrders m.events orderId = none

section

variable [Zero P] {returned : List (Order P)} {o o' : Order P} {as bs : List (Order P)}

/-- Rows are there for the orders that have been submitted. -/
lemma savedOrders_submitOrder (symbolIdx : ℕ) (r : Submission P) :
    savedOrders (m.submitOrder symbolIdx r).1.events = writeOrder
      (savedOrders ({ m with nextOrderId := m.nextOrderId + 1 }.matchIncoming
        (r.order symbolIdx m.nextOrderId)).events) (m.submitOrder symbolIdx r).2 := by
  set k := { m with nextOrderId := m.nextOrderId + 1 }.matchIncoming
    (r.order symbolIdx m.nextOrderId) with hk
  show savedOrders (k.settle.events ++ .order k.settle.incoming :: _) = _
  rw [List.append_cons, savedOrders_append_of_none, savedOrders_snoc, k.settle_frame.events]
  · rfl
  · intro e he
    rcases List.mem_append.mp he with he | he
    · obtain ⟨t, -, rfl⟩ := List.mem_map.mp he
      rfl
    · obtain rfl := List.mem_singleton.mp he
      rfl

lemma orderId_submitOrder (m : MatchingEngine P) (symbolIdx : ℕ) (r : Submission P) :
    (m.submitOrder symbolIdx r).2.orderId = m.nextOrderId :=
  (Match.settle_frame _).orderId.trans (orderId_matchIncoming _ _)

lemma events_amendOrder {id : ℕ} {newPrice : Option P} {newQuantity : Option ℤ}
    {r : MatchingEngine P × Order P} (hr : m.amendOrder id newPrice newQuantity = some r) :
    r.1.events = m.events ++ [.order r.2] := by
  obtain ⟨o, ho, rfl⟩ := Option.map_eq_some_iff.mp hr
  show m.events ++ (m.orders.findSome? _).toList.map .order = _
  rw [ho]
  rfl

omit [Zero P] in
/-- The rows show the fills of the others, and the new order has none. -/
lemma Saved.matchIncoming (h : m.Saved returned) (hm : m.Numbered returned) (symbolIdx : ℕ)
    (r : Submission P) : ({ m with nextOrderId := m.nextOrderId + 1 }.matchIncoming
      (r.order symbolIdx m.nextOrderId)).Saved
        (returned.filter fun o => ∀ a ∈ m.orders, a.orderId ≠ o.orderId) := by
  refine matchIncoming_saved (hm.inStep.congr rfl (Nat.le_succ _) rfl) ⟨h.listed, ?_, ?_, ?_⟩
  · intro o ho
    obtain ⟨ho, hnot⟩ := List.mem_filter.mp ho
    exact h.returned o ho (of_decide_eq_true hnot)
  · intro o ho
    exact of_decide_eq_true (List.mem_filter.mp ho).2
  · exact hm.rows m.nextOrderId le_rfl

/-- A new order gets a row, and the rows of the others show their fills. -/
lemma Saved.submitOrder (h : m.Saved returned) (hm : m.Numbered returned) (symbolIdx : ℕ)
    (r : Submission P) : (m.submitOrder symbolIdx r).1.Saved
      (returned ++ [(m.submitOrder symbolIdx r).2]) := by
  set entered : MatchingEngine P := { m with nextOrderId := m.nextOrderId + 1 } with hentered
  set k := entered.matchIncoming (r.order symbolIdx m.nextOrderId) with hkdef
  have hframe : Match.Frame ⟨entered, r.order symbolIdx m.nextOrderId, []⟩ k :=
    matchIncoming_frame _ _
  have hk : k.Saved (returned.filter fun o => ∀ a ∈ m.orders, a.orderId ≠ o.orderId) :=
    h.matchIncoming hm symbolIdx r
  have hid : k.incoming.orderId = m.nextOrderId := orderId_matchIncoming _ _
  have hnew : ∀ o ∈ k.orders, o.orderId ≠ m.nextOrderId :=
    orderId_ne_of_matchIncoming (m := entered) fun o ho => (hm.inStep.fresh o ho).ne
  have hframe' := k.settle_frame
  have hsettled : k.settle.incoming.orderId = m.nextOrderId := hframe'.orderId.trans hid
  have hself : k.settle.incoming.IsSaved (writeOrder (savedOrders k.events) k.settle.incoming) :=
    isSaved_writeOrder (by rw [hsettled, ← hid]; exact hk.new)
  have hother : ∀ o : Order P, o.IsSaved (savedOrders k.events) → o.orderId ≠ m.nextOrderId →
      o.IsSaved (writeOrder (savedOrders k.events) k.settle.incoming) := fun o ho hne =>
    ho.save_of_ne (hsettled ▸ hne)
  constructor
  · rw [savedOrders_submitOrder]
    intro o ho
    rcases hframe'.listed o ho with ho | rfl
    · exact hother o (hk.listed o ho) (hnew o ho)
    · exact hself
  · rw [savedOrders_submitOrder]
    intro o ho hnot
    rcases List.mem_append.mp ho with ho | ho
    · refine hother o (hk.outside o (List.mem_filter.mpr ⟨ho, decide_eq_true fun a ha => ?_⟩))
        (hm.returned o ho).ne
      obtain ⟨b, hb, heq⟩ := hframe.exists_new ha
      exact heq ▸ hnot b (hframe'.kept b hb)
    · rw [List.mem_singleton.mp ho]
      exact hself

omit [Zero P] in
/-- One order of the list is changed and saved. -/
lemma Saved.of_change_iff (h : m.Saved returned) (hm : m.InStep)
    (horders : m.orders = as ++ o :: bs) (horders' : m'.orders = as ++ o' :: bs)
    (hid : o'.orderId = o.orderId) (hevents : m'.events = m.events ++ [.order o']) :
    m'.Saved (returned ++ [o']) ↔ o'.price = o.price ∧ o'.quantity = o.quantity := by
  have ho : o ∈ m.orders := horders ▸ by simp
  have hids : m'.orders.map Order.orderId = m.orders.map Order.orderId := by
    simp [horders, horders', hid]
  rw [← (h.listed o ho).save_iff hid, ← savedOrders_snoc, ← hevents]
  constructor
  · intro hafter
    exact hafter.listed o' (horders' ▸ by simp)
  · intro hself
    have hother : ∀ a : Order P, a.IsSaved (savedOrders m.events) → a.orderId ≠ o.orderId →
        a.IsSaved (savedOrders m'.events) := by
      intro a ha hne
      rw [hevents, savedOrders_snoc]
      exact ha.save_of_ne (hid ▸ hne)
    constructor
    · rw [horders']
      intro a ha
      rcases (mem_replaced_iff (horders ▸ hm.nodup)).mp ha with rfl | ⟨ha, hne⟩
      · exact hself
      · exact hother a (h.listed a (horders ▸ ha)) hne
    · intro a ha hnot
      have hmem : o' ∈ m'.orders := horders' ▸ by simp
      rcases List.mem_append.mp ha with ha | ha
      · refine hother a (h.returned a ha fun b hb heq => ?_) (hid ▸ (hnot o' hmem).symm)
        have hb' : b.orderId ∈ m'.orders.map Order.orderId := hids ▸ List.mem_map_of_mem hb
        obtain ⟨c, hc, hcb⟩ := List.mem_map.mp hb'
        exact hnot c hc (hcb.trans heq)
      · exact absurd (congrArg Order.orderId (List.mem_singleton.mp ha)).symm (hnot o' hmem)

lemma Saved.handle_iff (h : m.Saved returned) (hm : m.Numbered returned) (symbols : List ℕ)
    (request : Request P) : (m.handle symbols request).1.Saved
      (returned ++ (m.handle symbols request).2.toList) ↔ m.KeepsTerms request := by
  cases request with
  | submit symbolIdx r =>
    simp only [KeepsTerms, iff_true]
    rw [MatchingEngine.handle]
    split
    · exact h.submitOrder hm symbolIdx r
    · rw [Option.toList_none, List.append_nil]
      exact ⟨h.listed, h.returned⟩
  | cancel id =>
    simp only [KeepsTerms, iff_true]
    rw [MatchingEngine.handle]
    cases hr : m.cancelOrder id with
    | none => exact (List.append_nil returned).symm ▸ h
    | some r =>
      obtain ⟨-, -, -, -, -, hevents, -⟩ := hm.inStep.cancelOrder_spec hr
      obtain ⟨o, as, bs, horders, horders', hr2⟩ := orders_of_cancelOrder hm.inStep hr
      refine (h.of_change_iff hm.inStep horders horders' (by rw [hr2]) hevents).mpr ?_
      rw [hr2]
      exact ⟨rfl, rfl⟩
  | amend id newPrice newQuantity =>
    rw [MatchingEngine.handle]
    cases hr : m.amendOrder id newPrice newQuantity with
    | none =>
      refine iff_of_true ((List.append_nil returned).symm ▸ h) fun o ho hid hopen => ?_
      obtain ⟨r, hsome⟩ := exists_amendOrder ho hid hopen newPrice newQuantity
      cases hr.symm.trans hsome
    | some r =>
      obtain ⟨o, ho, hid, hopen, hr2, -, -, -, ⟨as, bs, horders, horders'⟩, -⟩ :=
        hm.inStep.amendOrder_spec hr
      have hid' : r.2.orderId = o.orderId := by rw [hr2]; rfl
      refine (h.of_change_iff hm.inStep horders horders' hid' (events_amendOrder hr)).trans ?_
      rw [hr2, o.keeps_amend_iff]
      constructor
      · intro hsame a ha hida _
        obtain rfl := hm.inStep.eq_of_orderId ha ho (hida.trans hid.symm)
        exact hsame
      · intro hkeeps
        exact hkeeps o ho hid hopen

lemma Numbered.submitOrder (h : m.Numbered returned) (symbolIdx : ℕ) (r : Submission P) :
    (m.submitOrder symbolIdx r).1.Numbered (returned ++ [(m.submitOrder symbolIdx r).2]) := by
  have hnext := (m.submitOrder_frame symbolIdx r).1
  have hid := orderId_submitOrder m symbolIdx r
  refine ⟨h.inStep.submitOrder symbolIdx r, fun o ho => ?_, fun orderId hle => ?_⟩
  · rw [hnext]
    rcases List.mem_append.mp ho with ho | ho
    · exact (h.returned o ho).trans (Nat.lt_succ_self _)
    · rw [List.mem_singleton.mp ho, hid]
      exact Nat.lt_succ_self _
  · rw [hnext] at hle
    have hne : orderId ≠ (m.submitOrder symbolIdx r).2.orderId := by
      rw [hid]
      exact (Nat.lt_of_succ_le hle).ne'
    rw [savedOrders_submitOrder, writeOrder_of_ne hne]
    have hentered : ({ m with nextOrderId := m.nextOrderId + 1 } : MatchingEngine P).InStep :=
      h.inStep.congr rfl (Nat.le_succ _) rfl
    refine matchIncoming_keeps (I := Match.RowsBelow) hentered ?_
      (fun _ _ _ _ hk he h => h.fill hk he)
      (fun _ _ h => h) (fun _ _ h => h) orderId ?_
    · exact fun id hid => h.rows id ((Nat.le_succ _).trans hid)
    · rw [(matchIncoming_frame _ _).nextOrderId]
      exact hle

omit [Zero P] in
lemma Numbered.of_change (h : m.Numbered returned) (hinStep : m'.InStep)
    (hid : o'.orderId < m.nextOrderId) (hnext : m'.nextOrderId = m.nextOrderId)
    (hevents : m'.events = m.events ++ [.order o']) :
    m'.Numbered (returned ++ [o']) where
  inStep := hinStep
  returned a ha := by
    rw [hnext]
    rcases List.mem_append.mp ha with ha | ha
    · exact h.returned a ha
    · exact List.mem_singleton.mp ha ▸ hid
  rows orderId hle := by
    rw [hnext] at hle
    rw [hevents, savedOrders_snoc, writeOrder_of_ne (hid.trans_le hle).ne']
    exact h.rows orderId hle

lemma Numbered.handle (h : m.Numbered returned) (symbols : List ℕ) (request : Request P) :
    (m.handle symbols request).1.Numbered (returned ++ (m.handle symbols request).2.toList) := by
  cases request with
  | submit symbolIdx r =>
    rw [MatchingEngine.handle]
    split
    · exact h.submitOrder symbolIdx r
    · rw [Option.toList_none, List.append_nil]
      exact ⟨h.inStep.congr rfl (Nat.le_succ _) rfl,
        fun o ho => (h.returned o ho).trans (Nat.lt_succ_self _),
        fun orderId hle => h.rows orderId ((Nat.le_succ _).trans hle)⟩
  | cancel id =>
    rw [MatchingEngine.handle]
    cases hr : m.cancelOrder id with
    | none => exact (List.append_nil returned).symm ▸ h
    | some r =>
      obtain ⟨hinStep, -, -, hnext, -, hevents, -⟩ := h.inStep.cancelOrder_spec hr
      obtain ⟨o, as, bs, horders, -, hr2⟩ := orders_of_cancelOrder h.inStep hr
      refine h.of_change hinStep ?_ hnext hevents
      rw [hr2]
      exact h.inStep.fresh o (horders ▸ by simp)
  | amend id newPrice newQuantity =>
    rw [MatchingEngine.handle]
    cases hr : m.amendOrder id newPrice newQuantity with
    | none => exact (List.append_nil returned).symm ▸ h
    | some r =>
      obtain ⟨o, ho, -, -, hr2, hinStep, hnext, -⟩ := h.inStep.amendOrder_spec hr
      refine h.of_change hinStep ?_ hnext (events_amendOrder hr)
      rw [hr2]
      exact h.inStep.fresh o ho

end

end MatchingEngine

/-! ### Saves that return -/

/-- An order of the list: a row holds it, and as long as it is open, something is. -/
structure Order.Sized (o : Order P) : Prop where
  storable : o.Storable
  quantity : 0 < o.quantity
  remains : o.isOpen = true → 0 < o.remainingQty

/-- No more is open of the order in hand than its quantity. -/
structure Match.Sized (k : Match P) : Prop where
  listed : ∀ o ∈ k.orders, o.Sized
  least : min 0 k.incoming.quantity ≤ k.incoming.remainingQty
  most : k.incoming.remainingQty ≤ k.incoming.quantity

section

variable {m : MatchingEngine P} {k : Match P} {e : Entry P} {o o' : Order P}

lemma MatchingEngine.saves_iff : m.saves o = true ↔ o.Storable := by
  simp [saves, saveOrder]

lemma MatchingEngine.saving_of_storable {r : MatchingEngine P × Order P} (h : r.2.Storable) :
    m.saving r = r := if_pos (saves_iff.mpr h)

lemma MatchingEngine.saving_of_not_storable {r : MatchingEngine P × Order P}
    (h : ¬r.2.Storable) : m.saving r = ({ r.1 with events := m.events }, r.2) :=
  if_neg (mt saves_iff.mp h)

namespace Match.Sized

/-- What is left of an entry is no more than there was. -/
lemma filled (h : k.Sized) (hpos : 0 < k.incoming.remainingQty) (he : 0 < e.remainingQty)
    (hfits : FitsColumn e.remainingQty) (ho : o ∈ k.orders)
    (hfilled : (k.left e).filled o = some o') : o'.Sized := by
  obtain ⟨⟨hid, hsymbol, hquantity, -⟩, hsize, -⟩ := h.listed o ho
  have hnonneg : 0 ≤ e.remainingQty - min k.incoming.remainingQty e.remainingQty := by omega
  have hleft : FitsColumn (e.remainingQty - min k.incoming.remainingQty e.remainingQty) := by
    unfold FitsColumn at hfits ⊢
    omega
  rw [Entry.filled] at hfilled
  split at hfilled
  · obtain rfl := Option.some.inj hfilled
    refine ⟨⟨hid, hsymbol, hquantity, hleft⟩, hsize, fun hopen => ?_⟩
    refine lt_of_le_of_ne hnonneg fun hz => ?_
    rw [Order.isOpen, show (k.left e).remainingQty = 0 from hz.symm] at hopen
    simp at hopen
  · cases hfilled

lemma fill (h : k.Sized) (hpos : 0 < k.incoming.remainingQty) (he : 0 < e.remainingQty)
    (hfits : FitsColumn e.remainingQty) : (k.fill e).1.Sized where
  listed := by
    intro o ho
    rcases List.exists_or_eq_self_of_replaceF (k.left e).filled k.orders with
      heq | ⟨a, a', as, bs, -, ha, hsplit, hreplace⟩
    · exact h.listed o (heq ▸ ho)
    · have hmem : ∀ b ∈ as ++ bs, b ∈ k.orders := by
        intro b hb
        rw [hsplit]
        simp only [List.mem_append, List.mem_cons] at hb ⊢
        tauto
      have hcases : o = a' ∨ o ∈ as ++ bs := by
        have ho' : o ∈ as ++ a' :: bs := hreplace ▸ ho
        simp only [List.mem_append, List.mem_cons] at ho' ⊢
        tauto
      rcases hcases with rfl | ho
      · exact h.filled hpos he hfits (by simp [hsplit]) ha
      · exact h.listed o (hmem o ho)
  least := by
    have hmost := h.most
    show min 0 k.incoming.quantity
      ≤ k.incoming.remainingQty - min k.incoming.remainingQty e.remainingQty
    omega
  most := by
    have hmost := h.most
    show k.incoming.remainingQty - min k.incoming.remainingQty e.remainingQty
      ≤ k.incoming.quantity
    omega

/-- The order in hand can be saved at last if it can be saved at first. -/
lemma storable (h : k.Sized) (hid : FitsColumn k.incoming.orderId)
    (hsymbol : FitsColumn k.incoming.symbolIdx) (hquantity : FitsColumn k.incoming.quantity) :
    k.incoming.Storable := by
  refine ⟨hid, hsymbol, hquantity, ?_⟩
  have hleast := h.least
  have hmost := h.most
  unfold FitsColumn at hquantity ⊢
  omega

/-- The order behind the entry is saved. -/
lemma fill_eq (h : k.Sized) (hpos : 0 < k.incoming.remainingQty) (he : 0 < e.remainingQty)
    (hfits : FitsColumn e.remainingQty) :
    Saving.fill { toMatch := k } e = ({ toMatch := (k.fill e).1 }, (k.fill e).2) := by
  have hsaves : (k.orders.findSome? (k.left e).filled).all k.saves = true := by
    cases hfound : k.orders.findSome? (k.left e).filled with
    | none => rfl
    | some o' =>
      obtain ⟨o, ho, hfilled⟩ := List.exists_of_findSome?_eq_some hfound
      rw [Option.all_some, MatchingEngine.saves_iff]
      exact (h.filled hpos he hfits ho hfilled).storable
  simp only [Saving.fill, hsaves, if_true]

/-- The loop is not left by an exception. -/
lemma sweep [LinearOrder P] {l : List (Entry P)} (h : k.Sized)
    (hl : ∀ e ∈ l, 0 < e.remainingQty ∧ FitsColumn e.remainingQty) :
    Sweep.sweep Saving.visit { toMatch := k } l
        = ({ toMatch := (Sweep.sweep Match.visit k l).1 }, (Sweep.sweep Match.visit k l).2) ∧
      (Sweep.sweep Match.visit k l).1.Sized := by
  induction l generalizing k with
  | nil => exact ⟨rfl, h⟩
  | cons e l ih =>
    obtain ⟨he, hl⟩ := List.forall_mem_cons.mp hl
    by_cases hstop : k.incoming.remainingQty ≤ 0 ∨ k.incoming.priceOk e.price = false
    · have hvisit : k.visit e = none := if_pos hstop
      have hvisit' : Saving.visit { toMatch := k } e = none := if_pos (.inr hstop)
      rw [Sweep.sweep_cons_stop hvisit, Sweep.sweep_cons_stop hvisit']
      exact ⟨rfl, h⟩
    · have hpos : 0 < k.incoming.remainingQty := by
        by_contra hle
        exact hstop (.inl (not_lt.mp hle))
      have hvisit : k.visit e = some (k.fill e) := if_neg hstop
      have hvisit' : Saving.visit { toMatch := k } e
          = some ({ toMatch := (k.fill e).1 }, (k.fill e).2) := by
        rw [← h.fill_eq hpos he.1 he.2]
        exact if_neg (by simpa using hstop)
      obtain ⟨heq, hsized⟩ := ih (h.fill hpos he.1 he.2) hl
      rw [Sweep.sweep_cons_go hvisit, Sweep.sweep_cons_go hvisit', heq]
      exact ⟨rfl, hsized⟩

end Match.Sized

end

namespace MatchingEngine

variable [LinearOrder P] {m m' : MatchingEngine P} {incoming : Order P}

/-- All orders of the list can be saved. -/
def Sized (m : MatchingEngine P) : Prop := ∀ o ∈ m.orders, o.Sized

lemma Sized.matchSaving (h : m.Sized) (hm : m.InStep)
    (hincoming : incoming.remainingQty = incoming.quantity) :
    m.matchSaving incoming = { toMatch := m.matchIncoming incoming } ∧
      (m.matchIncoming incoming).Sized := by
  have hstart : ∀ status, Match.Sized ⟨m, { incoming with status }, []⟩ := fun status =>
    ⟨h, by simp [hincoming], by simp [hincoming]⟩
  have hentries : ∀ e ∈ m.entries incoming.symbolIdx incoming.side.opposite,
      0 < e.remainingQty ∧ FitsColumn e.remainingQty := by
    intro e he
    obtain ⟨o, ho, hrests, rfl⟩ := hm.exists_order he
    obtain ⟨hstorable, -, hremains⟩ := h o ho
    exact ⟨hremains (Order.restsIn_iff.mp hrests).1, hstorable.2.2.2⟩
  rw [MatchingEngine.matchSaving, matchIncoming]
  split
  · exact ⟨rfl, hstart .rejected⟩
  · obtain ⟨heq, hsized⟩ := (hstart incoming.status).sweep hentries
    rw [show ({ incoming with status := incoming.status } : Order P) = incoming from rfl]
      at heq hsized
    rw [heq]
    exact ⟨rfl, hsized.listed, hsized.least, hsized.most⟩

lemma Sized.matchNew (h : m.Sized) (hm : m.InStep) (symbolIdx : ℕ) (r : Submission P) :
    ({ m with nextOrderId := m.nextOrderId + 1 }.matchSaving (r.order symbolIdx m.nextOrderId))
        = { toMatch := ({ m with nextOrderId := m.nextOrderId + 1 }.matchIncoming
          (r.order symbolIdx m.nextOrderId)) } ∧
      ({ m with nextOrderId := m.nextOrderId + 1 }.matchIncoming
        (r.order symbolIdx m.nextOrderId)).Sized :=
  Sized.matchSaving (m := { m with nextOrderId := m.nextOrderId + 1 }) h
    (hm.congr rfl (Nat.le_succ _) rfl) rfl

/-- The order in hand is, in the end, as it was submitted, but for what is open of it. -/
lemma settled_incoming (m : MatchingEngine P) (symbolIdx : ℕ) (r : Submission P) :
    let settled := ({ m with nextOrderId := m.nextOrderId + 1 }.matchIncoming
      (r.order symbolIdx m.nextOrderId)).settle
    settled.incoming.orderId = m.nextOrderId ∧ settled.incoming.symbolIdx = symbolIdx ∧
      settled.incoming.quantity = r.quantity := by
  intro settled
  have hmatch := (matchIncoming_frame { m with nextOrderId := m.nextOrderId + 1 }
    (r.order symbolIdx m.nextOrderId)).incoming
  have hsettle : settled.incoming = _ := (Match.settle_frame _).incoming
  rw [hsettle, hmatch]
  exact ⟨rfl, rfl, rfl⟩

lemma Sized.settle {k : Match P} (h : k.Sized) (hincoming : k.incoming.Storable) :
    Sized k.settle.toMatchingEngine := by
  cases k.settles with
  | done status hk' =>
    rw [hk']
    exact h.listed
  | rests hpos hstatus hlimit hk' =>
    rw [hk']
    intro o ho
    rcases List.mem_append.mp ho with ho | ho
    · exact h.listed o ho
    · rw [List.mem_singleton.mp ho]
      exact ⟨hincoming, hpos.trans_le h.most, fun _ => hpos⟩

omit [LinearOrder P] in
/-- An order is replaced in the list. -/
lemma Sized.of_change {m m' : MatchingEngine P} {o o' : Order P} {as bs : List (Order P)}
    (h : m.Sized) (horders : m.orders = as ++ o :: bs) (horders' : m'.orders = as ++ o' :: bs)
    (ho' : o'.Sized) : m'.Sized := by
  intro a ha
  rw [horders', List.mem_append, List.mem_cons] at ha
  rcases ha with ha | rfl | ha
  · exact h a (by simp [horders, ha])
  · exact ho'
  · exact h a (by simp [horders, ha])

variable [Zero P] {symbols : List ℕ} {returned : List (Order P)} {request : Request P}

/-- The loop of a new order is not left by an exception. -/
lemma Sized.submitSaving (h : m.Sized) (hm : m.InStep) (symbolIdx : ℕ) (r : Submission P) :
    let settled := ({ m with nextOrderId := m.nextOrderId + 1 }.matchIncoming
      (r.order symbolIdx m.nextOrderId)).settle
    m.submitSaving symbolIdx r = settled.saving (settled.publish symbolIdx) := by
  intro settled
  rw [MatchingEngine.submitSaving, (h.matchNew hm symbolIdx r).1]
  exact if_neg Bool.false_ne_true

/-- A new order of such integers is saved. -/
lemma Sized.submit (h : m.Sized) (hm : m.InStep) {symbolIdx : ℕ} {r : Submission P}
    (hstorable : (r.order symbolIdx m.nextOrderId).Storable) :
    m.submitSaving symbolIdx r = m.submitOrder symbolIdx r ∧
      (m.submitOrder symbolIdx r).1.Sized := by
  have hsized := (h.matchNew hm symbolIdx r).2
  have hframe := (matchIncoming_frame { m with nextOrderId := m.nextOrderId + 1 }
    (r.order symbolIdx m.nextOrderId)).incoming
  obtain ⟨hid, hsymbol, hquantity, -⟩ := hstorable
  have hincoming : ({ m with nextOrderId := m.nextOrderId + 1 }.matchIncoming
      (r.order symbolIdx m.nextOrderId)).incoming.Storable := by
    apply hsized.storable <;> rw [hframe]
    · exact hid
    · exact hsymbol
    · exact hquantity
  have hsettled : ({ m with nextOrderId := m.nextOrderId + 1 }.matchIncoming
      (r.order symbolIdx m.nextOrderId)).settle.incoming.Storable := by
    rw [(Match.settle_frame _).incoming]
    exact hincoming
  refine ⟨?_, Sized.settle hsized hincoming⟩
  rw [h.submitSaving hm symbolIdx r]
  exact saving_of_storable hsettled

/-- Where an order that is made can be saved, and an amend keeps the terms of its order, no call
raises. -/
lemma Sized.attempt (h : m.Sized) (hm : m.InStep) (hkeeps : m.KeepsTerms request)
    (hstores : StoresNew symbols m request) :
    attempt symbols m request = answer symbols m request ∧ (answer symbols m request).1.Sized := by
  rw [answer]
  cases request with
  | submit symbolIdx r =>
    rw [MatchingEngine.attempt, MatchingEngine.handle]
    by_cases hsymbol : symbolIdx ∈ symbols
    · obtain ⟨heq, hsized⟩ := h.submit hm (hstores hsymbol)
      rw [if_pos hsymbol, if_pos hsymbol, heq]
      exact ⟨rfl, hsized⟩
    · rw [if_neg hsymbol, if_neg hsymbol]
      exact ⟨rfl, h⟩
  | cancel id =>
    rw [MatchingEngine.attempt, MatchingEngine.handle]
    cases hr : m.cancelOrder id with
    | none => exact ⟨rfl, h⟩
    | some r =>
      obtain ⟨o, as, bs, horders, horders', hr2⟩ := orders_of_cancelOrder hm hr
      obtain ⟨hstorable, hquantity, -⟩ := h o (by simp [horders])
      have hsized : r.2.Sized := by
        rw [hr2]
        exact ⟨hstorable, hquantity, fun hopen => by simp [Order.isOpen] at hopen⟩
      rw [Option.map_some, saving_of_storable hsized.storable]
      exact ⟨rfl, h.of_change horders horders' hsized⟩
  | amend id newPrice newQuantity =>
    rw [MatchingEngine.attempt, MatchingEngine.handle]
    cases hr : m.amendOrder id newPrice newQuantity with
    | none => exact ⟨rfl, h⟩
    | some r =>
      obtain ⟨o, ho, hid, hopen, hr2, -, -, -, ⟨as, bs, horders, horders'⟩, -⟩ :=
        hm.amendOrder_spec hr
      obtain ⟨⟨hstorable, hsymbol, hfits, hleft⟩, hquantity, hremains⟩ := h o ho
      have hquantity' := (o.keeps_amend_iff.mpr (hkeeps o ho hid hopen)).2
      have hcases : (o.amend newPrice newQuantity).remainingQty = o.quantity ∨
          (o.amend newPrice newQuantity).remainingQty = o.remainingQty := by
        cases newQuantity with
        | none => exact .inr rfl
        | some quantity => exact .inl hquantity'
      have hsized : r.2.Sized := by
        rw [hr2]
        refine ⟨⟨hstorable, hsymbol, hquantity' ▸ hfits, ?_⟩, hquantity' ▸ hquantity, fun _ => ?_⟩
        · rcases hcases with heq | heq <;> rw [heq]
          · exact hfits
          · exact hleft
        · rcases hcases with heq | heq <;> rw [heq]
          · exact hquantity
          · exact hremains hopen
      rw [Option.map_some, saving_of_storable hsized.storable]
      exact ⟨rfl, h.of_change horders horders' hsized⟩

/-- An order that cannot be saved has no row. -/
lemma Saved.not_saved_of_submit (h : m.Saved returned) (hm : m.Numbered returned) (hsized : m.Sized)
    {symbolIdx : ℕ} {r : Submission P} (hnot : ¬(r.order symbolIdx m.nextOrderId).Storable) :
    ¬(m.submitSaving symbolIdx r).1.Saved (returned ++ [(m.submitSaving symbolIdx r).2]) := by
  obtain ⟨hid, hsymbol, hquantity⟩ := settled_incoming m symbolIdx r
  have hrow := (h.matchIncoming hm symbolIdx r).new
  rw [hsized.submitSaving hm.inStep symbolIdx r]
  set k := { m with nextOrderId := m.nextOrderId + 1 }.matchIncoming
    (r.order symbolIdx m.nextOrderId) with hk
  have hnone : savedOrders k.settle.events k.settle.incoming.orderId = none := by
    rw [k.settle_frame.events, k.settle_frame.orderId]
    exact hrow
  have hrefused : ¬(k.settle.publish symbolIdx).2.Storable := by
    rintro ⟨hid', hsymbol', hquantity', -⟩
    change FitsColumn k.settle.incoming.orderId at hid'
    change FitsColumn k.settle.incoming.symbolIdx at hsymbol'
    change FitsColumn k.settle.incoming.quantity at hquantity'
    rw [hid] at hid'
    rw [hsymbol] at hsymbol'
    rw [hquantity] at hquantity'
    exact hnot ⟨hid', hsymbol', hquantity', hquantity'⟩
  rw [saving_of_not_storable hrefused]
  intro hsaved
  by_cases hlisted : ∃ a ∈ k.settle.orders, a.orderId = k.settle.incoming.orderId
  · obtain ⟨a, ha, heq⟩ := hlisted
    obtain ⟨row, hrow', -⟩ := hsaved.listed a ha
    rw [heq, show savedOrders _ _ = none from hnone] at hrow'
    cases hrow'
  · have hreturned := hsaved.returned k.settle.incoming (by simp [Match.publish])
      fun a ha heq => hlisted ⟨a, ha, heq⟩
    obtain ⟨row, hrow', -⟩ := hreturned
    rw [show savedOrders _ _ = none from hnone] at hrow'
    cases hrow'

/-- A row that is not written does not show other terms. -/
lemma Saved.keeps_of_amend (h : m.Saved returned) (hm : m.Numbered returned) {id : ℕ}
    {newPrice : Option P} {newQuantity : Option ℤ}
    (hsaved : (attempt symbols m (.amend id newPrice newQuantity)).1.Saved
      (returned ++ (attempt symbols m (.amend id newPrice newQuantity)).2)) :
    m.KeepsTerms (.amend id newPrice newQuantity) := by
  have hiff := h.handle_iff hm symbols (.amend id newPrice newQuantity)
  rw [MatchingEngine.attempt] at hsaved
  rw [MatchingEngine.handle] at hiff
  cases hr : m.amendOrder id newPrice newQuantity with
  | none =>
    rw [hr, Option.map_none, Option.getD_none] at hsaved hiff
    exact hiff.mp hsaved
  | some r =>
    rw [hr, Option.map_some, Option.getD_some] at hsaved hiff
    by_cases hstorable : r.2.Storable
    · rw [saving_of_storable hstorable] at hsaved
      exact hiff.mp hsaved
    · rw [saving_of_not_storable hstorable] at hsaved
      obtain ⟨o, ho, hid, hopen, hr2, -, -, -, ⟨as, bs, horders, horders'⟩, -⟩ :=
        hm.inStep.amendOrder_spec hr
      have hid' : r.2.orderId = o.orderId := by rw [hr2]; rfl
      obtain ⟨row, hrow, hprice, hquantity, -⟩ := h.listed o ho
      obtain ⟨row', hrow', hprice', hquantity', -⟩ :=
        hsaved.listed r.2 (show r.2 ∈ r.1.orders by simp [horders'])
      obtain rfl : row = row' := by
        rw [hid'] at hrow'
        exact Option.some.inj (hrow.symm.trans hrow')
      have hsame := o.keeps_amend_iff.mp
        ⟨(hr2 ▸ hprice').symm.trans hprice, (hr2 ▸ hquantity').symm.trans hquantity⟩
      intro a ha hida _
      obtain rfl := hm.inStep.eq_of_orderId ha ho (hida.trans hid.symm)
      exact hsame

lemma Saved.attempt_iff (h : m.Saved returned) (hm : m.Numbered returned) (hsized : m.Sized)
    (symbols : List ℕ) (request : Request P) :
    (attempt symbols m request).1.Saved (returned ++ (attempt symbols m request).2) ↔
      m.KeepsTerms request ∧ StoresNew symbols m request := by
  constructor
  · intro hsaved
    cases request with
    | submit symbolIdx r =>
      refine ⟨trivial, fun hsymbol => ?_⟩
      by_contra hnot
      rw [MatchingEngine.attempt, if_pos hsymbol] at hsaved
      exact h.not_saved_of_submit hm hsized hnot hsaved
    | cancel id => exact ⟨trivial, trivial⟩
    | amend id newPrice newQuantity => exact ⟨h.keeps_of_amend hm hsaved, trivial⟩
  · rintro ⟨hkeeps, hstores⟩
    rw [(hsized.attempt hm.inStep hkeeps hstores).1]
    exact (h.handle_iff hm symbols request).mpr hkeeps

/-- The rows show the orders in every run and after each request exactly if all orders are made of
integers that a row holds, and no amend changes the price or the quantity of an order. -/
theorem run_saved_iff (symbols : List ℕ) (requests : List (Request P)) :
    Machine.Throughout (Machine.recording (attempt symbols)) (fun s => s.1.Saved s.2)
        ({}, []) requests ↔
      Machine.Along (Machine.recording (attempt symbols))
        (fun s request => s.1.KeepsTerms request ∧ StoresNew symbols s.1 request)
        (({}, []) : MatchingEngine P × List (Order P)) requests := by
  refine Machine.throughout_iff_along_of_kept (I := fun s => s.1.Numbered s.2 ∧ s.1.Sized) ?_
    (fun s request hm h => h.attempt_iff hm.1 hm.2 symbols request)
    ⟨⟨.empty, ?_, ?_⟩, ?_⟩ ⟨?_, ?_⟩
  · rintro ⟨m, returned⟩ request ⟨hkeeps, hstores⟩ ⟨hm, hsized⟩ -
    obtain ⟨heq, hsized'⟩ := hsized.attempt hm.inStep hkeeps hstores
    simp only [Machine.recording, heq]
    exact ⟨hm.handle symbols request, hsized'⟩
  all_goals simp [savedOrders, Sized]

/-- A bid at 100 that is amended to 101. -/
def amendPrice : List (Request ℤ) :=
  [.submit 1 ⟨.buy, .limit, 100, 10, .day, []⟩, .amend 1000 (some 101) none]

/-- The row keeps the price 100. -/
theorem not_saved_amendPrice : ¬Machine.Throughout (Machine.recording (attempt [1]))
    (fun s => s.1.Saved s.2) (({}, []) : MatchingEngine ℤ × List (Order ℤ)) amendPrice := by
  intro h
  have hsaved := h.2.2.listed
    ⟨1000, "D-1000".toList, 1, .buy, .limit, 101, 10, 10, .new, .day⟩ (by decide)
  exact absurd hsaved (by decide)

end MatchingEngine

end EuNEx.Dashboard
