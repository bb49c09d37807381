import EuNEx.Dashboard.Requests
import Mathlib.Logic.Equiv.Basic

/-!
# Renaming of order ids

A permutation of the numbers renames the orders: in the order list, in the side lists, in the trades
and in the events. The engine compares ids and does nothing else with them, so that every method
commutes with the renaming. Only the client order id that an order gets for want of another one
shows the id.
-/

namespace EuNEx.Dashboard

variable {P : Type*} (ρ : Equiv.Perm ℕ)

def Order.renameId (o : Order P) : Order P := { o with orderId := ρ o.orderId }

def Entry.renameId (e : Entry P) : Entry P := { e with orderId := ρ e.orderId }

def Trade.renameId (t : Trade P) : Trade P :=
  { t with buyOrderId := ρ t.buyOrderId, sellOrderId := ρ t.sellOrderId }

def Event.renameId : Event P → Event P
  | .order o => .order (o.renameId ρ)
  | .trade t => .trade (t.renameId ρ)
  | .snapshot snap => .snapshot snap

def Book.renameId (book : Book P) : Book P :=
  ⟨book.bids.map (Entry.renameId ρ), book.asks.map (Entry.renameId ρ)⟩

/-- The engine with its ids renamed, and with this as the next one. -/
def MatchingEngine.renameId (m : MatchingEngine P) (nextOrderId : ℕ) : MatchingEngine P where
  books symbolIdx := (m.books symbolIdx).renameId ρ
  orders := m.orders.map (Order.renameId ρ)
  trades := m.trades.map (Trade.renameId ρ)
  snapshots := m.snapshots
  nextOrderId := nextOrderId
  events := m.events.map (Event.renameId ρ)

def Match.renameId (k : Match P) (nextOrderId : ℕ) : Match P :=
  ⟨k.toMatchingEngine.renameId ρ nextOrderId, k.incoming.renameId ρ,
    k.matched.map (Trade.renameId ρ)⟩

/-- A request that names the orders by their other ids. -/
def Request.renameId : Request P → Request P
  | .submit symbolIdx r => .submit symbolIdx r
  | .cancel orderId => .cancel (ρ orderId)
  | .amend orderId newPrice newQuantity => .amend (ρ orderId) newPrice newQuantity

/-! ### Books and lists -/

section

variable {m : MatchingEngine P} {n symbolIdx : ℕ} {s : Side} {o : Order P} {e : Entry P}

@[simp] lemma Order.isOpen_renameId : (o.renameId ρ).isOpen = o.isOpen := rfl

@[simp] lemma Order.entry_renameId : (o.renameId ρ).entry = o.entry.renameId ρ := rfl

@[simp] lemma Order.amend_renameId (newPrice : Option P) (newQuantity : Option ℤ) :
    (o.renameId ρ).amend newPrice newQuantity = (o.amend newPrice newQuantity).renameId ρ := rfl

@[simp] lemma Order.priceOk_renameId [LinearOrder P] (price : P) :
    (o.renameId ρ).priceOk price = o.priceOk price := rfl

@[simp] lemma Book.entries_renameId (book : Book P) :
    (book.renameId ρ).entries s = (book.entries s).map (Entry.renameId ρ) := by cases s <;> rfl

lemma Book.setEntries_renameId (book : Book P) (l : List (Entry P)) :
    (book.renameId ρ).setEntries s (l.map (Entry.renameId ρ))
      = (book.setEntries s l).renameId ρ := by cases s <;> rfl

/-- A fill of the renamed entry changes the renamed order. -/
lemma Entry.filled_renameId :
    (e.renameId ρ).filled (o.renameId ρ) = (e.filled o).map (Order.renameId ρ) := by
  have hiff : (o.renameId ρ).orderId = (e.renameId ρ).orderId ↔ o.orderId = e.orderId :=
    ρ.injective.eq_iff
  by_cases hid : o.orderId = e.orderId
  · rw [filled, filled, if_pos hid, if_pos (hiff.mpr hid)]
    rfl
  · rw [filled, filled, if_neg hid, if_neg (mt hiff.mp hid)]
    rfl

namespace MatchingEngine

@[simp] lemma entries_renameId : (m.renameId ρ n).entries symbolIdx s
    = (m.entries symbolIdx s).map (Entry.renameId ρ) := Book.entries_renameId ρ _

lemma setEntries_renameId (l : List (Entry P)) :
    (m.renameId ρ n).setEntries symbolIdx s (l.map (Entry.renameId ρ))
      = (m.setEntries symbolIdx s l).renameId ρ n := by
  have hbooks : Function.update (m.renameId ρ n).books symbolIdx
      (((m.renameId ρ n).books symbolIdx).setEntries s (l.map (Entry.renameId ρ)))
        = ((m.setEntries symbolIdx s l).renameId ρ n).books := by
    funext symbolIdx'
    rcases eq_or_ne symbolIdx' symbolIdx with rfl | hne
    · simp [renameId, setEntries, Book.setEntries_renameId]
    · simp [renameId, setEntries, Function.update_of_ne hne]
  rw [setEntries, hbooks]
  rfl

section

variable {change change' : Order P → Option (Order P)}

/-- A search of the orders for a renamed id. -/
lemma findSome?_renameId (hchange : ∀ o, change' (o.renameId ρ) = (change o).map (Order.renameId ρ))
    (l : List (Order P)) : (l.map (Order.renameId ρ)).findSome? change'
      = (l.findSome? change).map (Order.renameId ρ) := by
  induction l with
  | nil => rfl
  | cons o l ih =>
    rw [List.map_cons, List.findSome?_cons, List.findSome?_cons, hchange]
    cases change o with
    | none => exact ih
    | some o' => rfl

lemma replaceF_renameId (hchange : ∀ o, change' (o.renameId ρ) = (change o).map (Order.renameId ρ))
    (l : List (Order P)) : (l.map (Order.renameId ρ)).replaceF change'
      = (l.replaceF change).map (Order.renameId ρ) := by
  induction l with
  | nil => rfl
  | cons o l ih =>
    rw [List.map_cons, List.replaceF_cons, List.replaceF_cons, hchange]
    cases change o with
    | none => exact congrArg _ ih
    | some o' => rfl

lemma writeBack_renameId
    (hchange : ∀ o, change' (o.renameId ρ) = (change o).map (Order.renameId ρ)) :
    (m.renameId ρ n).writeBack change' = (m.writeBack change).renameId ρ n := by
  simp only [writeBack, renameId, replaceF_renameId ρ hchange, findSome?_renameId ρ hchange,
    List.map_append, mk.injEq, true_and]
  cases m.orders.findSome? change <;> rfl

end

/-- The sort looks at the prices. -/
lemma insertResting_renameId [LinearOrder P] :
    (m.renameId ρ n).insertResting (o.renameId ρ) = (m.insertResting o).renameId ρ n := by
  have hsort := List.map_insertionSort (Entry.Le o.side) (Entry.Le o.side) (Entry.renameId ρ)
    (m.entries o.symbolIdx o.side ++ [o.entry]) fun _ _ _ _ => Iff.rfl
  rw [List.map_append, ← entries_renameId (n := n)] at hsort
  rw [insertResting, insertResting, ← setEntries_renameId, hsort]
  rfl

lemma removeFromBook_renameId :
    (m.renameId ρ n).removeFromBook (o.renameId ρ) = (m.removeFromBook o).renameId ρ n := by
  have herase : ((m.entries o.symbolIdx o.side).map (Entry.renameId ρ)).eraseP
        (fun e => e.orderId = ρ o.orderId)
      = ((m.entries o.symbolIdx o.side).eraseP
        fun e => e.orderId = o.orderId).map (Entry.renameId ρ) := by
    rw [List.eraseP_map]
    congr 2
    funext e
    simp [Entry.renameId, Function.comp]
  rw [removeFromBook, removeFromBook, ← setEntries_renameId, ← herase, ← entries_renameId (n := n)]
  rfl

/-- No id is in a snapshot. -/
@[simp] lemma snapshot_renameId [Zero P] :
    (m.renameId ρ n).snapshot symbolIdx = m.snapshot symbolIdx := by
  have htrades : ((m.renameId ρ n).trades.filter fun t => t.symbolIdx = symbolIdx)
      = (m.trades.filter fun t => t.symbolIdx = symbolIdx).map (Trade.renameId ρ) := by
    rw [renameId, List.filter_map]
    rfl
  have hbids : ((m.renameId ρ n).books symbolIdx).bids
      = (m.books symbolIdx).bids.map (Entry.renameId ρ) := rfl
  have hasks : ((m.renameId ρ n).books symbolIdx).asks
      = (m.books symbolIdx).asks.map (Entry.renameId ρ) := rfl
  simp only [snapshot, htrades, hbids, hasks, List.head?_map, List.getLast?_map, Option.map_map,
    List.length_map, List.map_map, ← List.map_take]
  rfl

lemma updateSnapshot_renameId [Zero P] : (m.renameId ρ n).updateSnapshot symbolIdx
    = (m.updateSnapshot symbolIdx).renameId ρ n := by
  rw [updateSnapshot, snapshot_renameId]
  rfl

end MatchingEngine

end

/-! ### Matching -/

section

variable {k : Match P} {n : ℕ} {e : Entry P}

lemma Match.trade_renameId :
    (k.renameId ρ n).trade (e.renameId ρ) = (k.trade e).renameId ρ := by
  have hlength : (k.renameId ρ n).trades.length = k.trades.length := List.length_map ..
  simp only [trade, Trade.renameId, hlength, apply_ite ρ]
  rfl

lemma Match.fill_renameId : (k.renameId ρ n).fill (e.renameId ρ)
    = Prod.map (·.renameId ρ n) (Option.map (Entry.renameId ρ)) (k.fill e) := by
  have hwrite : (k.toMatchingEngine.renameId ρ n).writeBack ((k.left e).renameId ρ).filled
      = (k.toMatchingEngine.writeBack (k.left e).filled).renameId ρ n :=
    MatchingEngine.writeBack_renameId ρ fun _ => Entry.filled_renameId ρ
  refine Prod.ext ?_ ?_
  · rw [fill, trade_renameId]
    show Match.mk { (k.toMatchingEngine.renameId ρ n).writeBack ((k.left e).renameId ρ).filled with
      trades := k.trades.map (Trade.renameId ρ) ++ [_] } _ (k.matched.map (Trade.renameId ρ) ++ [_])
        = _
    rw [hwrite, ← List.map_singleton, ← List.map_append, ← List.map_append]
    rfl
  · show (if (k.left e).remainingQty = 0 then none else some ((k.left e).renameId ρ)) = _
    rw [Prod.map_snd, fill]
    split_ifs <;> rfl

end

section

variable [LinearOrder P] {m : MatchingEngine P} {k : Match P} {n : ℕ} {e : Entry P} {o : Order P}

lemma Match.visit_renameId : (k.renameId ρ n).visit (e.renameId ρ)
    = (k.visit e).map (Prod.map (·.renameId ρ n) (Option.map (Entry.renameId ρ))) := by
  have hstop : ((k.renameId ρ n).incoming.remainingQty ≤ 0 ∨
      (k.renameId ρ n).incoming.priceOk (e.renameId ρ).price = false) ↔
        (k.incoming.remainingQty ≤ 0 ∨ k.incoming.priceOk e.price = false) := Iff.rfl
  by_cases h : k.incoming.remainingQty ≤ 0 ∨ k.incoming.priceOk e.price = false
  · rw [visit, visit, if_pos h, if_pos (hstop.mpr h), Option.map_none]
  · rw [visit, visit, if_neg h, if_neg (mt hstop.mp h), fill_renameId, Option.map_some]

/-- The loop of `_match`, on a renamed side. -/
lemma Match.sweep_renameId (l : List (Entry P)) :
    Sweep.sweep Match.visit (k.renameId ρ n) (l.map (Entry.renameId ρ))
      = Prod.map (·.renameId ρ n) (List.map (Entry.renameId ρ)) (Sweep.sweep Match.visit k l) :=
  Sweep.sweep_map (fun _ _ => visit_renameId ρ) k l

namespace MatchingEngine

@[simp] lemma available_renameId :
    (m.renameId ρ n).available (o.renameId ρ) = m.available o := by
  have hentries : (m.renameId ρ n).entries (o.renameId ρ).symbolIdx (o.renameId ρ).side.opposite
      = (m.entries o.symbolIdx o.side.opposite).map (Entry.renameId ρ) := entries_renameId ρ
  rw [available, available, hentries, List.filter_map, List.map_map]
  rfl

lemma sweepOpposite_renameId :
    (m.renameId ρ n).sweepOpposite (o.renameId ρ) = (m.sweepOpposite o).renameId ρ n := by
  have hentries : (m.renameId ρ n).entries (o.renameId ρ).symbolIdx (o.renameId ρ).side.opposite
      = (m.entries o.symbolIdx o.side.opposite).map (Entry.renameId ρ) := entries_renameId ρ
  set r := Sweep.sweep Match.visit ⟨m, o, []⟩ (m.entries o.symbolIdx o.side.opposite) with hr
  have hsweep : Sweep.sweep Match.visit ⟨m.renameId ρ n, o.renameId ρ, []⟩
      ((m.entries o.symbolIdx o.side.opposite).map (Entry.renameId ρ))
        = (r.1.renameId ρ n, r.2.map (Entry.renameId ρ)) :=
    Match.sweep_renameId ρ (k := ⟨m, o, []⟩) _
  rw [sweepOpposite, hentries, hsweep]
  show Match.mk ((r.1.toMatchingEngine.renameId ρ n).setEntries o.symbolIdx o.side.opposite
    (r.2.map (Entry.renameId ρ))) _ _ = _
  rw [setEntries_renameId]
  rfl

/-- `_match` on the renamed engine. -/
lemma matchIncoming_renameId :
    (m.renameId ρ n).matchIncoming (o.renameId ρ) = (m.matchIncoming o).renameId ρ n := by
  have hreject : ((o.renameId ρ).tif = .fok ∧
      (m.renameId ρ n).available (o.renameId ρ) < (o.renameId ρ).quantity) ↔
        (o.tif = .fok ∧ m.available o < o.quantity) := by
    rw [available_renameId]
    rfl
  by_cases h : o.tif = .fok ∧ m.available o < o.quantity
  · rw [matchIncoming, matchIncoming, if_pos h, if_pos (hreject.mpr h)]
    rfl
  · rw [matchIncoming, matchIncoming, if_neg h, if_neg (mt hreject.mp h), sweepOpposite_renameId]

end MatchingEngine

lemma Match.settle_renameId : (k.renameId ρ n).settle = k.settle.renameId ρ n := by
  set appended : MatchingEngine P :=
    { k.toMatchingEngine with orders := k.orders ++ [k.incoming] } with happended
  have happend : { k.toMatchingEngine.renameId ρ n with
      orders := k.orders.map (Order.renameId ρ) ++ [k.incoming.renameId ρ] }
        = appended.renameId ρ n := by
    simp only [happended, MatchingEngine.renameId, List.map_append, List.map_cons, List.map_nil]
  have hinsert : (appended.renameId ρ n).insertResting (k.incoming.renameId ρ)
      = (appended.insertResting k.incoming).renameId ρ n :=
    MatchingEngine.insertResting_renameId ρ
  show (if 0 < k.incoming.remainingQty ∧ k.incoming.status ≠ .cancelled ∧
      k.incoming.status ≠ .rejected then
    if k.incoming.orderType = .market ∨ k.incoming.tif = .ioc then _
    else if k.incoming.tif = .fok then _
    else Match.mk (({ k.toMatchingEngine.renameId ρ n with
      orders := k.orders.map (Order.renameId ρ) ++ [k.incoming.renameId ρ] }).insertResting
        (k.incoming.renameId ρ)) _ _
    else if k.incoming.remainingQty = 0 then _ else _) = _
  rw [happend, hinsert, settle]
  split_ifs <;> rfl

/-! ### Requests -/

section

variable [Zero P] {symbolIdx : ℕ}

omit [LinearOrder P] [Zero P] in
lemma Match.published_renameId (snap : Option (Snapshot P)) :
    (k.renameId ρ n).published snap = (k.published snap).map (Event.renameId ρ) := by
  simp only [published, renameId, List.map_cons, List.map_append, List.map_map, List.map_nil]
  rfl

omit [LinearOrder P] in
lemma Match.publish_renameId : (k.renameId ρ n).publish symbolIdx
    = Prod.map (·.renameId ρ n) (Order.renameId ρ) (k.publish symbolIdx) := by
  have hupdate : (k.renameId ρ n).updateSnapshot symbolIdx
      = (k.updateSnapshot symbolIdx).renameId ρ n := MatchingEngine.updateSnapshot_renameId ρ
  rw [publish, hupdate, published_renameId]
  refine Prod.ext ?_ rfl
  simp only [MatchingEngine.renameId, Prod.map_fst, publish, List.map_append]

end

namespace MatchingEngine

variable [Zero P] {orderId symbolIdx : ℕ}

/-- A new order, whose client order id does not depend on its id. -/
lemma submitOrder_renameId {r r' : Submission P}
    (hr : r.order symbolIdx (ρ m.nextOrderId) = (r'.order symbolIdx m.nextOrderId).renameId ρ) :
    (m.renameId ρ (ρ m.nextOrderId)).submitOrder symbolIdx r
      = Prod.map (·.renameId ρ (ρ m.nextOrderId + 1)) (Order.renameId ρ)
        (m.submitOrder symbolIdx r') := by
  have hentered : { m.renameId ρ (ρ m.nextOrderId) with nextOrderId := ρ m.nextOrderId + 1 }
      = { m with nextOrderId := m.nextOrderId + 1 }.renameId ρ (ρ m.nextOrderId + 1) := rfl
  rw [submitOrder, submitOrder, ← Match.publish_renameId, ← Match.settle_renameId,
    ← matchIncoming_renameId, ← hr]
  rfl

omit [LinearOrder P] [Zero P] in
lemma changeOpen_renameId {change : Order P → Order P}
    (hchange : ∀ o, change (o.renameId ρ) = (change o).renameId ρ) (o : Order P) :
    changeOpen (ρ orderId) change (o.renameId ρ)
      = (changeOpen orderId change o).map (Order.renameId ρ) := by
  have hiff : ((o.renameId ρ).orderId = ρ orderId ∧ (o.renameId ρ).isOpen) ↔
      (o.orderId = orderId ∧ o.isOpen) := and_congr_left' ρ.injective.eq_iff
  by_cases h : o.orderId = orderId ∧ o.isOpen
  · rw [changeOpen, changeOpen, if_pos h, if_pos (hiff.mpr h), hchange, Option.map_some]
  · rw [changeOpen, changeOpen, if_neg h, if_neg (mt hiff.mp h), Option.map_none]

omit [LinearOrder P] in
lemma cancelOrder_renameId : (m.renameId ρ n).cancelOrder (ρ orderId)
    = (m.cancelOrder orderId).map (Prod.map (·.renameId ρ n) (Order.renameId ρ)) := by
  have hchange : ∀ o : Order P, cancelled (ρ orderId) (o.renameId ρ)
      = (cancelled orderId o).map (Order.renameId ρ) :=
    changeOpen_renameId ρ fun _ => rfl
  have hfound : (m.renameId ρ n).orders.findSome? (cancelled (ρ orderId))
      = (m.orders.findSome? (cancelled orderId)).map (Order.renameId ρ) :=
    findSome?_renameId ρ hchange _
  rw [cancelOrder, cancelOrder, hfound, Option.map_map, Option.map_map]
  refine Option.map_congr fun o _ => Prod.ext ?_ rfl
  show (((m.renameId ρ n).writeBack (cancelled (ρ orderId))).removeFromBook
    (o.renameId ρ)).updateSnapshot o.symbolIdx = _
  rw [writeBack_renameId ρ hchange, removeFromBook_renameId, updateSnapshot_renameId]
  rfl

lemma amendOrder_renameId {newPrice : Option P} {newQuantity : Option ℤ} :
    (m.renameId ρ n).amendOrder (ρ orderId) newPrice newQuantity
      = (m.amendOrder orderId newPrice newQuantity).map
        (Prod.map (·.renameId ρ n) (Order.renameId ρ)) := by
  have hchange : ∀ o : Order P, amended (ρ orderId) newPrice newQuantity (o.renameId ρ)
      = (amended orderId newPrice newQuantity o).map (Order.renameId ρ) :=
    changeOpen_renameId ρ fun _ => rfl
  have hfound : (m.renameId ρ n).orders.findSome? (amended (ρ orderId) newPrice newQuantity)
      = (m.orders.findSome? (amended orderId newPrice newQuantity)).map (Order.renameId ρ) :=
    findSome?_renameId ρ hchange _
  rw [amendOrder, amendOrder, hfound, Option.map_map, Option.map_map]
  refine Option.map_congr fun o _ => Prod.ext ?_ rfl
  show ((((m.renameId ρ n).writeBack (amended (ρ orderId) newPrice newQuantity)).removeFromBook
    (o.renameId ρ)).insertResting (o.renameId ρ)).updateSnapshot o.symbolIdx = _
  rw [writeBack_renameId ρ hchange, removeFromBook_renameId, insertResting_renameId,
    updateSnapshot_renameId]
  rfl

end MatchingEngine

end

end EuNEx.Dashboard
