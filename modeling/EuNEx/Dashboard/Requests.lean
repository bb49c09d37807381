import EuNEx.Dashboard.InStep
import EuNEx.Lib.Machine
import Mathlib.Data.List.Dedup
import Mathlib.Data.List.Induction

/-!
# Runs of the dashboard's engine

New orders, cancels and amends, one at a time. Whatever they are, the order list, the books and the
snapshots say the same.
-/

namespace EuNEx.Dashboard

variable {P : Type*}

/-- The calls of the methods of `MatchingEngine`. -/
inductive Request (P : Type*) where
  | submit (symbolIdx : ℕ) (r : Submission P)
  | cancel (orderId : ℕ)
  | amend (orderId : ℕ) (newPrice : Option P) (newQuantity : Option ℤ)
deriving DecidableEq, Repr

namespace MatchingEngine

section

variable [LinearOrder P] [Zero P] (symbols : List ℕ) (m : MatchingEngine P)

/-- A request, with the order it returns. -/
def handle : Request P → MatchingEngine P × Option (Order P)
  | .submit symbolIdx r =>
    -- the first line of `_match` raises an exception if the symbol has no book
    if symbolIdx ∈ symbols then Prod.map id some (m.submitOrder symbolIdx r)
    else ({ m with nextOrderId := m.nextOrderId + 1 }, none)
  | .cancel orderId => ((m.cancelOrder orderId).map (Prod.map id some)).getD (m, none)
  | .amend orderId newPrice newQuantity =>
    ((m.amendOrder orderId newPrice newQuantity).map (Prod.map id some)).getD (m, none)

/-- The order that a request puts to rest: it is in the list, and open. -/
def rested (request : Request P) : List ℕ :=
  let r := m.handle symbols request
  (r.2.toList.filter fun o => o ∈ r.1.orders ∧ o.isOpen = true).map Order.orderId

/-- One request, with the id that it puts to rest. -/
def serve (m : MatchingEngine P) (request : Request P) : MatchingEngine P × List ℕ :=
  ((m.handle symbols request).1, m.rested symbols request)

end

/-! ### What should hold -/

section

variable [LinearOrder P] [Zero P] (m : MatchingEngine P)

/-- The price of the first entry in the order of the side, or 0. -/
def IsBest (s : Side) (entries : List (Entry P)) (price : P) : Prop :=
  (∃ e ∈ entries, e.price = price ∧ ∀ e' ∈ entries, KeyLe s price e'.price) ∨
    entries = [] ∧ price = 0

/-- The snapshot shows the state of the symbol. -/
structure Shows (symbolIdx : ℕ) (snap : Snapshot P) : Prop where
  ofSymbol : snap.symbolIdx = symbolIdx
  bestBid : IsBest .buy (m.entries symbolIdx .buy) snap.bestBid
  bestAsk : IsBest .sell (m.entries symbolIdx .sell) snap.bestAsk
  bidDepth : snap.bidDepth = (m.entries symbolIdx .buy).length
  askDepth : snap.askDepth = (m.entries symbolIdx .sell).length
  lastTrade : ∀ t, (m.trades.filter fun t => t.symbolIdx = symbolIdx).getLast? = some t →
    snap.lastPrice = t.price ∧ snap.lastQty = t.quantity
  noTrade : (∀ t ∈ m.trades, t.symbolIdx ≠ symbolIdx) → snap.lastPrice = 0 ∧ snap.lastQty = 0
  tradeCount : snap.tradeCount = m.trades.countP fun t => t.symbolIdx = symbolIdx
  volume : snap.volume
    = ((m.trades.filter fun t => t.symbolIdx = symbolIdx).map Trade.quantity).sum
  bids : snap.bids = ((m.entries symbolIdx .buy).take 10).map fun b => (b.price, b.remainingQty)
  asks : snap.asks = ((m.entries symbolIdx .sell).take 10).map fun a => (a.price, a.remainingQty)

/-- The order list, the books and the snapshots say the same, the ids having been put to rest in
this order. An amend puts its order to rest again. -/
structure Consistent (m : MatchingEngine P) (rested : List ℕ) : Prop where
  open_iff : ∀ o ∈ m.orders,
    o.isOpen = true ↔ ∃ e ∈ m.entries o.symbolIdx o.side, e.orderId = o.orderId
  entry : ∀ o ∈ m.orders, o.isOpen = true →
    (m.entries o.symbolIdx o.side).filter (fun e => e.orderId = o.orderId) = [o.entry]
  owned : ∀ symbolIdx s, ∀ e ∈ m.entries symbolIdx s,
    ∃ o ∈ m.orders, o.isOpen = true ∧ o.symbolIdx = symbolIdx ∧ o.side = s ∧ o.entry = e
  sorted : ∀ symbolIdx s, (m.entries symbolIdx s).Pairwise (Entry.Le s)
  queued : ∀ symbolIdx s price,
    (((m.entries symbolIdx s).filter fun e => e.price = price).map Entry.orderId).Sublist
      rested.dedup
  snapshots : ∀ symbolIdx snap, m.snapshots symbolIdx = some snap → m.Shows symbolIdx snap

end

/-! ### Snapshots -/

section

variable [LinearOrder P] [Zero P] {m m' : MatchingEngine P} {symbolIdx : ℕ} {s : Side}

lemma isBest_head {l : List (Entry P)} (h : l.Pairwise (Entry.Le s)) :
    IsBest s l ((l.head?.map Entry.price).getD 0) := by
  cases l with
  | nil => exact .inr ⟨rfl, rfl⟩
  | cons e l =>
    refine .inl ⟨e, List.mem_cons_self, rfl, ?_⟩
    intro e' he'
    rcases List.mem_cons.mp he' with rfl | he'
    · exact (KeyLe.total s e'.price e'.price).elim id id
    · exact List.rel_of_pairwise_cons h he'

/-- What `_update_snapshot` writes. -/
lemma shows_snapshot (h : ∀ s, (m.entries symbolIdx s).Pairwise (Entry.Le s)) :
    m.Shows symbolIdx (m.snapshot symbolIdx) where
  ofSymbol := rfl
  bestBid := isBest_head (h .buy)
  bestAsk := isBest_head (h .sell)
  bidDepth := rfl
  askDepth := rfl
  lastTrade t ht := by
    simp only [snapshot, ht]
    exact ⟨rfl, rfl⟩
  noTrade hnone := by
    have hnil : (m.trades.filter fun t => t.symbolIdx = symbolIdx) = [] :=
      List.filter_eq_nil_iff.mpr fun t ht => by simpa using hnone t ht
    simp only [snapshot, hnil]
    exact ⟨rfl, rfl⟩
  tradeCount := List.countP_eq_length_filter.symm
  volume := rfl
  bids := rfl
  asks := rfl

omit [LinearOrder P] in
/-- Only the books and the trades of the symbol matter. -/
lemma snapshot_congr (hentries : ∀ s, m'.entries symbolIdx s = m.entries symbolIdx s)
    (htrades : (m'.trades.filter fun t => t.symbolIdx = symbolIdx)
      = m.trades.filter fun t => t.symbolIdx = symbolIdx) :
    m'.snapshot symbolIdx = m.snapshot symbolIdx := by
  have hbids : (m'.books symbolIdx).bids = (m.books symbolIdx).bids := hentries .buy
  have hasks : (m'.books symbolIdx).asks = (m.books symbolIdx).asks := hentries .sell
  simp only [snapshot, hbids, hasks, htrades]

/-- Every snapshot is the one that would be taken now. -/
def Current (m : MatchingEngine P) : Prop :=
  ∀ symbolIdx snap, m.snapshots symbolIdx = some snap → snap = m.snapshot symbolIdx

omit [LinearOrder P] in
lemma touches_of_cancelOrder {id : ℕ} {r : MatchingEngine P × Order P}
    (hr : m.cancelOrder id = some r) : ∃ symbolIdx, m.Touches symbolIdx r.1 := by
  obtain ⟨o, -, -, -, rfl⟩ := exists_of_cancelOrder hr
  refine ⟨o.symbolIdx, fun symbolIdx' hne s => ?_, ⟨[], (List.append_nil _).symm, by simp⟩, rfl⟩
  exact InStep.entries_removeFromBook_of_ne (.inl hne)

lemma touches_of_amendOrder {id : ℕ} {newPrice : Option P} {newQuantity : Option ℤ}
    {r : MatchingEngine P × Order P} (hr : m.amendOrder id newPrice newQuantity = some r) :
    ∃ symbolIdx, m.Touches symbolIdx r.1 := by
  obtain ⟨o, -, -, -, rfl⟩ := exists_of_amendOrder hr
  refine ⟨o.symbolIdx, fun symbolIdx' hne s => ?_, ⟨[], (List.append_nil _).symm, by simp⟩, rfl⟩
  exact (entries_setEntries_of_ne (.inl hne)).trans
    (InStep.entries_removeFromBook_of_ne (.inl hne))

omit [LinearOrder P] in
lemma Touches.current (h : m.Touches symbolIdx m') (hm : m.Current) : m'.Current := by
  intro symbolIdx' snap hsnap
  rw [h.snapshots] at hsnap
  rcases eq_or_ne symbolIdx' symbolIdx with rfl | hne
  · rw [Function.update_self] at hsnap
    exact (Option.some.inj hsnap).symm
  · rw [Function.update_of_ne hne] at hsnap
    rw [hm symbolIdx' snap hsnap]
    obtain ⟨ts, htrades, hts⟩ := h.trades
    refine (snapshot_congr (h.entries symbolIdx' hne) ?_).symm
    have hnone : (ts.filter fun t => t.symbolIdx = symbolIdx') = [] := by
      apply List.filter_eq_nil_iff.mpr
      intro t ht
      rw [hts t ht]
      simpa using hne.symm
    rw [htrades, List.filter_append, hnone, List.append_nil]

end

/-! ### The order of arrival -/

section

variable [LinearOrder P] {m m' : MatchingEngine P} {symbolIdx : ℕ} {s : Side} {price : P}

/-- The ids of a price, as they stand in the side list. -/
def queue (m : MatchingEngine P) (symbolIdx : ℕ) (s : Side) (price : P) : List ℕ :=
  ((m.entries symbolIdx s).filter fun e => e.price = price).map Entry.orderId

/-- Every queue is in the order in which its ids last came to rest. -/
def Queued (m : MatchingEngine P) (rested : List ℕ) : Prop :=
  ∀ symbolIdx s price, (m.queue symbolIdx s price).Sublist rested.dedup

/-- Entries that are dropped or filled do not change the order. -/
lemma queue_sublist (h : ((m'.entries symbolIdx s).map fun e => (e.price, e.orderId)).Sublist
    ((m.entries symbolIdx s).map fun e => (e.price, e.orderId))) (price : P) :
    (m'.queue symbolIdx s price).Sublist (m.queue symbolIdx s price) := by
  have hqueue : ∀ l : List (Entry P), (l.filter fun e => e.price = price).map Entry.orderId
      = ((l.map fun e => (e.price, e.orderId)).filter fun key => key.1 = price).map Prod.snd := by
    intro l
    rw [List.filter_map, List.map_map]
    rfl
  rw [queue, queue, hqueue, hqueue]
  exact (h.filter _).map _

/-- An order comes to rest behind the others of its price. -/
lemma queue_insertResting (o : Order P) : (m.insertResting o).queue symbolIdx s price
    = m.queue symbolIdx s price ++
      if symbolIdx = o.symbolIdx ∧ s = o.side ∧ o.price = price then [o.orderId] else [] := by
  by_cases hhere : symbolIdx = o.symbolIdx ∧ s = o.side
  · obtain ⟨rfl, rfl⟩ := hhere
    have hsort : (((m.entries o.symbolIdx o.side ++ [o.entry]).insertionSort
        (Entry.Le o.side)).filter fun e => e.price = price)
        = (m.entries o.symbolIdx o.side ++ [o.entry]).filter fun e => e.price = price := by
      apply Sorted.filter_insertionSort
      intro a b ha hb
      rw [decide_eq_true_eq] at ha hb
      rw [Entry.Le, ha, hb]
      exact (KeyLe.total o.side price price).elim id id
    rw [queue, insertResting, entries_setEntries, hsort, List.filter_append, List.map_append,
      queue]
    by_cases hprice : o.price = price
    · simp [hprice, Order.entry]
    · simp [hprice, Order.entry]
  · rw [queue, insertResting, entries_setEntries_of_ne (by tauto), if_neg (by tauto),
      List.append_nil, queue]

/-- A match drops and fills entries. -/
lemma keys_matchIncoming (incoming : Order P) :
    (((m.matchIncoming incoming).entries symbolIdx s).map fun e => (e.price, e.orderId)).Sublist
      ((m.entries symbolIdx s).map fun e => (e.price, e.orderId)) := by
  rw [matchIncoming]
  split
  · exact .refl _
  · by_cases hhere : symbolIdx = incoming.symbolIdx ∧ s = incoming.side.opposite
    · obtain ⟨rfl, rfl⟩ := hhere
      rw [entries_sweepOpposite]
      refine Sweep.sweep_map_sublist ?_
      intro k e k' e' hv
      obtain ⟨-, hleft⟩ := Match.fill_of_visit hv
      obtain ⟨hprice, hid, -⟩ := Match.fill_left hleft.symm
      rw [hprice, hid]
    · rw [entries_sweepOpposite_of_ne (by tauto)]

lemma dedup_snoc (l : List ℕ) (a : ℕ) : (l ++ [a]).dedup = l.dedup.filter (· ≠ a) ++ [a] := by
  induction l with
  | nil => simp
  | cons b l ih =>
    rw [List.cons_append]
    by_cases hb : b ∈ l
    · rw [List.dedup_cons_of_mem (List.mem_append_left _ hb), List.dedup_cons_of_mem hb, ih]
    · rw [List.dedup_cons_of_notMem hb]
      by_cases hba : b = a
      · rw [List.dedup_cons_of_mem (by simp [hba]), ih, List.filter_cons_of_neg (by simp [hba])]
      · rw [List.dedup_cons_of_notMem (by simp [hb, hba]), ih,
          List.filter_cons_of_pos (by simpa using hba), List.cons_append]

variable {rested : List ℕ} {id : ℕ}

lemma Queued.mono (h : m.Queued rested) (hsub : ∀ symbolIdx s price,
    (m'.queue symbolIdx s price).Sublist (m.queue symbolIdx s price)) : m'.Queued rested :=
  fun symbolIdx s price => (hsub symbolIdx s price).trans (h symbolIdx s price)

/-- An id comes to rest behind the others. -/
lemma Queued.snoc (h : m.Queued rested) (hsub : ∀ symbolIdx s price, (m'.queue symbolIdx s
    price).Sublist ((m.queue symbolIdx s price).filter (· ≠ id) ++ [id])) :
    m'.Queued (rested ++ [id]) := by
  intro symbolIdx s price
  rw [dedup_snoc]
  exact (hsub symbolIdx s price).trans (((h symbolIdx s price).filter _).append (.refl _))

lemma queue_sublist_insertResting {o : Order P} {l : List ℕ}
    (h : (m.queue symbolIdx s price).Sublist l) :
    ((m.insertResting o).queue symbolIdx s price).Sublist (l ++ [o.orderId]) := by
  rw [queue_insertResting]
  refine h.append ?_
  split
  · exact .refl _
  · exact List.nil_sublist _

lemma queue_of_filter (h : m'.entries symbolIdx s
    = (m.entries symbolIdx s).filter fun e => e.orderId ≠ id) :
    m'.queue symbolIdx s price = (m.queue symbolIdx s price).filter (· ≠ id) := by
  rw [queue, queue, h, List.filter_map, List.filter_filter, List.filter_filter]
  congr 1
  exact List.filter_congr fun e _ => Bool.and_comm _ _

lemma InStep.exists_of_mem_queue (h : m.InStep) (hid : id ∈ m.queue symbolIdx s price) :
    ∃ o ∈ m.orders, o.orderId = id := by
  obtain ⟨e, he, rfl⟩ := List.mem_map.mp hid
  obtain ⟨o, ho, -, rfl⟩ := h.exists_order (List.mem_filter.mp he).1
  exact ⟨o, ho, rfl⟩

end

/-! ### Runs -/

section

variable [LinearOrder P] [Zero P] {m m' : MatchingEngine P} {rested : List ℕ}

lemma InStep.handle (h : m.InStep) (symbols : List ℕ) (request : Request P) :
    (m.handle symbols request).1.InStep := by
  cases request with
  | submit symbolIdx r =>
    rw [MatchingEngine.handle]
    split
    · exact h.submitOrder symbolIdx r
    · exact h.congr rfl (Nat.le_succ _) rfl
  | cancel id =>
    rw [MatchingEngine.handle]
    cases hr : m.cancelOrder id with
    | none => exact h
    | some r => exact (h.cancelOrder_spec hr).1
  | amend id newPrice newQuantity =>
    rw [MatchingEngine.handle]
    cases hr : m.amendOrder id newPrice newQuantity with
    | none => exact h
    | some r =>
      obtain ⟨-, -, -, -, -, hinStep, -⟩ := h.amendOrder_spec hr
      exact hinStep

/-- The invariant of runs. -/
structure Kept (m : MatchingEngine P) (rested : List ℕ) : Prop where
  inStep : m.InStep
  queued : m.Queued rested
  current : m.Current

lemma Kept.empty : Kept ({} : MatchingEngine P) [] where
  inStep := .empty
  queued _ s _ := by cases s <;> exact .refl _
  current _ _ h := by cases h

lemma Kept.consistent (h : m.Kept rested) : m.Consistent rested where
  open_iff o ho := by
    constructor
    · intro hopen
      exact ⟨o.entry, h.inStep.entry_mem ho hopen, rfl⟩
    · rintro ⟨e, he, hid⟩
      obtain ⟨a, ha, hrests, rfl⟩ := h.inStep.exists_order he
      obtain rfl := h.inStep.eq_of_orderId ha ho hid
      exact (Order.restsIn_iff.mp hrests).1
  entry o ho hopen := by
    have hperm := (h.inStep.perm_entries ho hopen).filter fun e => e.orderId = o.orderId
    rw [List.filter_cons_of_pos (by simp [Order.entry]), List.filter_filter] at hperm
    have hnil : ((m.entries o.symbolIdx o.side).filter fun e =>
        decide (e.orderId = o.orderId) && decide (e.orderId ≠ o.orderId)) = [] := by simp
    rw [hnil] at hperm
    exact List.perm_singleton.mp hperm
  owned symbolIdx s e he := by
    obtain ⟨o, ho, hrests, rfl⟩ := h.inStep.exists_order he
    obtain ⟨hopen, hsymbol, hside⟩ := Order.restsIn_iff.mp hrests
    exact ⟨o, ho, hopen, hsymbol, hside, rfl⟩
  sorted := h.inStep.sorted
  queued := h.queued
  snapshots symbolIdx snap hsnap := by
    rw [h.current symbolIdx snap hsnap]
    exact shows_snapshot (h.inStep.sorted symbolIdx)

/-- A new order takes the next id; where it comes to rest, it is the last of its queue. -/
lemma Kept.submitOrder (h : m.Kept rested) {symbols : List ℕ} {symbolIdx : ℕ}
    (hsymbol : symbolIdx ∈ symbols) (r : Submission P) :
    (m.submitOrder symbolIdx r).1.Kept (rested ++ m.rested symbols (.submit symbolIdx r)) := by
  have hinStep := h.inStep.submitOrder symbolIdx r
  have hcurrent := (m.submitOrder_frame symbolIdx r).2.current h.current
  refine ⟨hinStep, ?_, hcurrent⟩
  set entered : MatchingEngine P := { m with nextOrderId := m.nextOrderId + 1 } with hentered
  set k := entered.matchIncoming (r.order symbolIdx m.nextOrderId) with hk
  have hframe : Match.Frame ⟨entered, r.order symbolIdx m.nextOrderId, []⟩ k :=
    matchIncoming_frame _ _
  have hid : k.incoming.orderId = m.nextOrderId := orderId_matchIncoming _ _
  have hnew : ∀ o ∈ k.orders, o.orderId ≠ m.nextOrderId :=
    orderId_ne_of_matchIncoming (m := entered) fun o ho => (h.inStep.fresh o ho).ne
  have hmatched : ∀ symbolIdx' s price, (k.queue symbolIdx' s price).Sublist
      (m.queue symbolIdx' s price) := fun _ _ price =>
    queue_sublist (keys_matchIncoming _) price
  have hrested : m.rested symbols (.submit symbolIdx r)
      = ([k.settle.incoming].filter fun o => o ∈ k.settle.orders ∧ o.isOpen = true).map
        Order.orderId := by
    rw [MatchingEngine.rested, handle, if_pos hsymbol]
    rfl
  rw [hrested]
  cases k.settles with
  | done status hk' =>
    have hnone : ¬(k.settle.incoming ∈ k.settle.orders ∧ k.settle.incoming.isOpen = true) := by
      rw [hk']
      exact fun hrests => hnew _ hrests.1 hid
    rw [List.filter_cons_of_neg (by simpa using hnone), List.filter_nil, List.map_nil,
      List.append_nil]
    refine h.queued.mono fun symbolIdx' s price => ?_
    show (k.settle.queue symbolIdx' s price).Sublist _
    rw [hk']
    exact hmatched symbolIdx' s price
  | rests hpos hstatus hlimit hk' =>
    have hsome : k.settle.incoming ∈ k.settle.orders ∧ k.settle.incoming.isOpen = true := by
      rw [hk']
      exact ⟨List.mem_append_right _ (List.mem_singleton_self _), hframe.isOpen hpos hstatus rfl⟩
    rw [List.filter_cons_of_pos (by simpa using hsome), List.filter_nil, List.map_singleton]
    rw [k.settle_frame.orderId, hid]
    refine h.queued.snoc fun symbolIdx' s price => ?_
    show (k.settle.queue symbolIdx' s price).Sublist _
    rw [hk', ← hid]
    have hentered : entered.InStep := h.inStep.congr rfl (Nat.le_succ _) rfl
    have hothers : (k.queue symbolIdx' s price).filter (· ≠ k.incoming.orderId)
        = k.queue symbolIdx' s price := by
      refine List.filter_eq_self.mpr fun id hmem => ?_
      obtain ⟨o, ho, rfl⟩ := (hentered.matchIncoming _).exists_of_mem_queue hmem
      rw [hid]
      exact decide_eq_true (hnew o ho)
    exact queue_sublist_insertResting (hothers ▸ (hmatched symbolIdx' s price).filter _)

/-- A cancel takes an id out of its queue. -/
lemma Kept.cancelOrder (h : m.Kept rested) {id : ℕ} {r : MatchingEngine P × Order P}
    (hr : m.cancelOrder id = some r) : r.1.Kept rested := by
  obtain ⟨hinStep, -, -, -, -, -, hentries⟩ := h.inStep.cancelOrder_spec hr
  refine ⟨hinStep, h.queued.mono fun symbolIdx s price => ?_,
    (touches_of_cancelOrder hr).elim fun _ ht => ht.current h.current⟩
  rw [queue_of_filter (hentries symbolIdx s)]
  exact List.filter_sublist

/-- An amend takes an id out of its queue and puts it at the end of one. -/
lemma Kept.amendOrder (h : m.Kept rested) {id : ℕ} {newPrice : Option P} {newQuantity : Option ℤ}
    {r : MatchingEngine P × Order P} (hr : m.amendOrder id newPrice newQuantity = some r) :
    r.1.Kept (rested ++ [id]) := by
  obtain ⟨-, -, -, -, -, hinStep, -⟩ := h.inStep.amendOrder_spec hr
  refine ⟨hinStep, ?_, (touches_of_amendOrder hr).elim fun _ ht => ht.current h.current⟩
  obtain ⟨o, ho, rfl, hopen, rfl⟩ := exists_of_amendOrder hr
  refine h.queued.snoc fun symbolIdx s price => ?_
  have hremoved : ((m.writeBack (amended o.orderId newPrice newQuantity)).removeFromBook
      (o.amend newPrice newQuantity)).queue symbolIdx s price
        = (m.queue symbolIdx s price).filter (· ≠ o.orderId) :=
    queue_of_filter (h.inStep.entries_removeFromBook ho rfl rfl rfl symbolIdx s)
  exact queue_sublist_insertResting (hremoved ▸ .refl _)

lemma Kept.handle (h : m.Kept rested) (symbols : List ℕ) (request : Request P) :
    (m.handle symbols request).1.Kept (rested ++ m.rested symbols request) := by
  cases request with
  | submit symbolIdx r =>
    by_cases hsymbol : symbolIdx ∈ symbols
    · rw [MatchingEngine.handle, if_pos hsymbol]
      exact h.submitOrder hsymbol r
    · rw [MatchingEngine.rested, MatchingEngine.handle, if_neg hsymbol]
      refine ⟨h.inStep.congr rfl (Nat.le_succ _) rfl, ?_, h.current⟩
      exact (List.append_nil rested).symm ▸ h.queued
  | cancel id =>
    rw [MatchingEngine.rested, MatchingEngine.handle]
    cases hr : m.cancelOrder id with
    | none => exact (List.append_nil rested).symm ▸ h
    | some r =>
      have hstatus := (h.inStep.cancelOrder_spec hr).2.2.1
      have hnot : ¬(r.2 ∈ r.1.orders ∧ r.2.isOpen = true) := by simp [Order.isOpen, hstatus]
      simp only [Option.map_some, Option.getD_some, Prod.map_fst, Prod.map_snd, id_eq,
        Option.toList_some]
      rw [List.filter_cons_of_neg (by simpa using hnot), List.filter_nil, List.map_nil,
        List.append_nil]
      exact h.cancelOrder hr
  | amend id newPrice newQuantity =>
    rw [MatchingEngine.rested, MatchingEngine.handle]
    cases hr : m.amendOrder id newPrice newQuantity with
    | none => exact (List.append_nil rested).symm ▸ h
    | some r =>
      obtain ⟨o, -, hid, hopen, hr2, -, -, -, ⟨as, bs, -, horders⟩, -⟩ :=
        h.inStep.amendOrder_spec hr
      have hsome : r.2 ∈ r.1.orders ∧ r.2.isOpen = true := by
        rw [horders, hr2]
        exact ⟨by simp, hopen⟩
      have hid' : r.2.orderId = id := by
        rw [hr2]
        exact hid
      simp only [Option.map_some, Option.getD_some, Prod.map_fst, Prod.map_snd, id_eq,
        Option.toList_some]
      rw [List.filter_cons_of_pos (by simpa using hsome), List.filter_nil, List.map_singleton, hid']
      exact h.amendOrder hr

/-- A symbol that has a snapshot keeps one. -/
lemma snapshots_handle {symbols : List ℕ} {request : Request P} {symbolIdx : ℕ}
    (h : (m.snapshots symbolIdx).isSome = true) :
    ((m.handle symbols request).1.snapshots symbolIdx).isSome = true := by
  have htouched : ∀ {m' : MatchingEngine P}, (∃ symbolIdx', m.Touches symbolIdx' m') →
      (m'.snapshots symbolIdx).isSome = true := by
    rintro m' ⟨symbolIdx', ht⟩
    rw [ht.snapshots, Function.update_apply]
    split
    · rfl
    · exact h
  cases request with
  | submit symbolIdx' r =>
    rw [MatchingEngine.handle]
    split
    · exact htouched ⟨symbolIdx', (m.submitOrder_frame symbolIdx' r).2⟩
    · exact h
  | cancel id =>
    rw [MatchingEngine.handle]
    cases hr : m.cancelOrder id with
    | none => exact h
    | some r => exact htouched (touches_of_cancelOrder hr)
  | amend id newPrice newQuantity =>
    rw [MatchingEngine.handle]
    cases hr : m.amendOrder id newPrice newQuantity with
    | none => exact h
    | some r => exact htouched (touches_of_amendOrder hr)

/-- In every run, and after each request, the order list, the books and the snapshots say the
same, and every symbol of an order that was taken has a snapshot. -/
theorem run_consistent (symbols : List ℕ) (requests : List (Request P)) :
    (Machine.run (serve symbols) {} requests).1.Consistent
        (Machine.run (serve symbols) {} requests).2 ∧
      ∀ symbolIdx ∈ symbols, (∃ r, Request.submit symbolIdx r ∈ requests) →
        ((Machine.run (serve symbols) {} requests).1.snapshots symbolIdx).isSome = true := by
  have hkept : (Machine.run (serve symbols) {} requests).1.Kept
      (Machine.run (serve symbols) {} requests).2 :=
    Machine.run_induction (C := fun _ _ => True) (h := [])
      (fun m rested request _ h => h.handle symbols request)
      (Machine.along_of_forall fun _ _ => trivial) .empty
  refine ⟨hkept.consistent, fun symbolIdx hsymbol => ?_⟩
  clear hkept
  induction requests using List.reverseRecOn with
  | nil => simp
  | append_singleton requests request ih =>
    rintro ⟨r, hr⟩
    rw [Machine.run_snoc]
    rcases List.mem_append.mp hr with hr | hr
    · exact snapshots_handle (ih ⟨r, hr⟩)
    · obtain rfl := List.mem_singleton.mp hr
      rw [serve, handle, if_pos hsymbol]
      have htouches := (submitOrder_frame (Machine.run (serve symbols) {} requests).1 symbolIdx r).2
      simp [htouches.snapshots]

end

end MatchingEngine

end EuNEx.Dashboard
