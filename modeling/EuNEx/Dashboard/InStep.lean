import EuNEx.Dashboard.MatchingEngine

/-!
# The order list and the books

The list `orders` and the side lists of the books are kept apart: a fill, a cancel and a new order
each write to both. They stay in step: the entries of a side are those of the open orders on it, in
the order of the sort key.
-/

namespace EuNEx.Dashboard

variable {P : Type*}

/-- The order should have an entry on this side. -/
def Order.restsIn (symbolIdx : ℕ) (s : Side) (o : Order P) : Bool :=
  o.isOpen && o.symbolIdx = symbolIdx && o.side = s

/-- The order behind an entry, once `incoming` with this much open has taken what it can. -/
def Order.fill (o : Order P) (incoming : ℤ) : Order P :=
  { o with
    status := if o.remainingQty - min incoming o.remainingQty = 0 then .filled else .partiallyFilled
    remainingQty := o.remainingQty - min incoming o.remainingQty }

/-- The entries that the orders of a side should have. -/
def openEntries (symbolIdx : ℕ) (s : Side) (orders : List (Order P)) : List (Entry P) :=
  (orders.filter (Order.restsIn symbolIdx s)).map Order.entry

section

variable {o o' : Order P} {as bs : List (Order P)}

/-- An order with an id of its own joins a list. -/
lemma nodup_orderId_snoc {orders : List (Order P)} (h : (orders.map Order.orderId).Nodup)
    (hnew : ∀ o' ∈ orders, o'.orderId ≠ o.orderId) :
    ((orders ++ [o]).map Order.orderId).Nodup := by
  rw [List.map_append, List.nodup_append]
  refine ⟨h, List.nodup_singleton _, ?_⟩
  rintro id hmem id' hmem' rfl
  obtain ⟨o', ho', rfl⟩ := List.mem_map.mp hmem
  exact hnew o' ho' (List.mem_singleton.mp hmem')

/-- The other orders of a list, where ids do not repeat. -/
lemma mem_beside_iff (h : ((as ++ o :: bs).map Order.orderId).Nodup) :
    o' ∈ as ++ bs ↔ o' ∈ as ++ o :: bs ∧ o'.orderId ≠ o.orderId := by
  rw [List.map_append, List.map_cons, List.nodup_middle, List.nodup_cons, ← List.map_append] at h
  constructor
  · intro ho'
    refine ⟨?_, fun heq => h.1 (heq ▸ List.mem_map_of_mem ho')⟩
    simp only [List.mem_append, List.mem_cons] at ho' ⊢
    tauto
  · rintro ⟨ho', hne⟩
    have hne' : o' ≠ o := fun heq => hne (heq ▸ rfl)
    simp only [List.mem_append, List.mem_cons] at ho' ⊢
    tauto

/-- The orders of a list in which one is replaced. -/
lemma mem_replaced_iff {a : Order P} (h : ((as ++ o :: bs).map Order.orderId).Nodup) :
    a ∈ as ++ o' :: bs ↔ a = o' ∨ a ∈ as ++ o :: bs ∧ a.orderId ≠ o.orderId := by
  rw [← mem_beside_iff h]
  simp only [List.mem_append, List.mem_cons]
  tauto

/-- An order that is replaced leaves its id to the other one. -/
lemma replaced_ids (hid : o'.orderId = o.orderId) :
    (as ++ o' :: bs).map Order.orderId = (as ++ o :: bs).map Order.orderId := by
  rw [List.map_append, List.map_append, List.map_cons, List.map_cons, hid]

lemma replaced_fresh {n : ℕ} (hid : o'.orderId = o.orderId)
    (h : ∀ a ∈ as ++ o :: bs, a.orderId < n) : ∀ a ∈ as ++ o' :: bs, a.orderId < n := by
  intro a ha
  have hmem := List.mem_map_of_mem (f := Order.orderId) ha
  rw [replaced_ids hid] at hmem
  obtain ⟨a', ha', heq⟩ := List.mem_map.mp hmem
  exact heq ▸ h a' ha'

end

section

variable {symbolIdx : ℕ} {s : Side} {o : Order P} {orders orders' : List (Order P)}

lemma Order.restsIn_iff :
    o.restsIn symbolIdx s = true ↔ o.isOpen = true ∧ o.symbolIdx = symbolIdx ∧ o.side = s := by
  simp [restsIn, and_assoc]

@[simp] lemma openEntries_append : openEntries symbolIdx s (orders ++ orders')
    = openEntries symbolIdx s orders ++ openEntries symbolIdx s orders' := by simp [openEntries]

lemma openEntries_cons : openEntries symbolIdx s (o :: orders)
    = openEntries symbolIdx s [o] ++ openEntries symbolIdx s orders := by
  rw [← openEntries_append, List.singleton_append]

lemma openEntries_of_rests (h : o.restsIn symbolIdx s = true) :
    openEntries symbolIdx s [o] = [o.entry] := by simp [openEntries, h]

lemma openEntries_of_not_rests (h : ¬o.restsIn symbolIdx s = true) :
    openEntries symbolIdx s [o] = [] := by simp [openEntries, h]

end

namespace MatchingEngine

/-- Where a change takes only one order, that order is written back. -/
lemma writeBack_split {m : MatchingEngine P} {o o' : Order P} {change : Order P → Option (Order P)}
    (h : (m.orders.map Order.orderId).Nodup) (ho : o ∈ m.orders) (hchange : change o = some o')
    (honly : ∀ a ∈ m.orders, a.orderId ≠ o.orderId → change a = none) :
    ∃ as bs, m.orders = as ++ o :: bs ∧ (m.writeBack change).orders = as ++ o' :: bs ∧
      (m.writeBack change).events = m.events ++ [.order o'] := by
  obtain ⟨a, a', as, bs, has, ha, hsplit, hreplace⟩ := List.exists_of_replaceF ho hchange
  have hmem : a ∈ m.orders := by simp [hsplit]
  have hid : a.orderId = o.orderId := by
    by_contra hne
    simp [honly a hmem hne] at ha
  obtain rfl := List.inj_on_of_nodup_map h hmem ho hid
  obtain rfl := Option.some.inj (ha.symm.trans hchange)
  refine ⟨as, bs, hsplit, hreplace, ?_⟩
  have hfind : m.orders.findSome? change = some a' := by
    rw [hsplit, List.findSome?_append, List.findSome?_eq_none_iff.mpr has]
    simp [ha]
  simp [writeBack, hfind]

/-- A cancel and an amend write back the open order that they find. -/
lemma cancelled_split {m : MatchingEngine P} {o : Order P} (h : (m.orders.map Order.orderId).Nodup)
    (ho : o ∈ m.orders) (hopen : o.isOpen = true) : ∃ as bs, m.orders = as ++ o :: bs ∧
      (m.writeBack (cancelled o.orderId)).orders = as ++ { o with status := .cancelled } :: bs ∧
      (m.writeBack (cancelled o.orderId)).events
        = m.events ++ [.order { o with status := .cancelled }] :=
  writeBack_split h ho (if_pos ⟨rfl, hopen⟩) fun _ _ hne => if_neg fun heq => hne heq.1

lemma amended_split {m : MatchingEngine P} {o : Order P} (h : (m.orders.map Order.orderId).Nodup)
    (ho : o ∈ m.orders) (hopen : o.isOpen = true) (newPrice : Option P) (newQuantity : Option ℤ) :
    ∃ as bs, m.orders = as ++ o :: bs ∧
      (m.writeBack (amended o.orderId newPrice newQuantity)).orders
        = as ++ o.amend newPrice newQuantity :: bs ∧
      (m.writeBack (amended o.orderId newPrice newQuantity)).events
        = m.events ++ [.order (o.amend newPrice newQuantity)] :=
  writeBack_split h ho (if_pos ⟨rfl, hopen⟩) fun _ _ hne => if_neg fun heq => hne heq.1

variable [LinearOrder P]

/-- The order list and the books are in step. -/
structure InStep (m : MatchingEngine P) : Prop where
  fresh : ∀ o ∈ m.orders, o.orderId < m.nextOrderId
  nodup : (m.orders.map Order.orderId).Nodup
  resting : ∀ symbolIdx s, (openEntries symbolIdx s m.orders).Perm (m.entries symbolIdx s)
  sorted : ∀ symbolIdx s, (m.entries symbolIdx s).Pairwise (Entry.Le s)

namespace InStep

variable {m m' : MatchingEngine P} {symbolIdx : ℕ} {s : Side} {o o' : Order P} {e : Entry P}
  {as bs : List (Order P)} {change : Order P → Option (Order P)}

lemma empty : InStep ({} : MatchingEngine P) where
  fresh := by simp
  nodup := List.nodup_nil
  resting _ s := by cases s <;> exact .refl _
  sorted _ s := by cases s <;> exact .nil

lemma eq_of_orderId (h : m.InStep) (ho : o ∈ m.orders) (ho' : o' ∈ m.orders)
    (hid : o.orderId = o'.orderId) : o = o' :=
  List.inj_on_of_nodup_map h.nodup ho ho' hid

/-- Every entry belongs to an open order. -/
lemma exists_order (h : m.InStep) (he : e ∈ m.entries symbolIdx s) :
    ∃ o ∈ m.orders, o.restsIn symbolIdx s = true ∧ o.entry = e := by
  obtain ⟨o, ho, rfl⟩ := List.mem_map.mp ((h.resting symbolIdx s).mem_iff.mpr he)
  obtain ⟨ho, hrests⟩ := List.mem_filter.mp ho
  exact ⟨o, ho, hrests, rfl⟩

/-- Every open order has its entry. -/
lemma entry_mem (h : m.InStep) (ho : o ∈ m.orders) (hopen : o.isOpen = true) :
    o.entry ∈ m.entries o.symbolIdx o.side := by
  apply (h.resting _ _).mem_iff.mp
  exact List.mem_map_of_mem (List.mem_filter.mpr ⟨ho, Order.restsIn_iff.mpr ⟨hopen, rfl, rfl⟩⟩)

/-- Ids do not repeat on a side. -/
lemma nodup_entries (h : m.InStep) (symbolIdx : ℕ) (s : Side) :
    ((m.entries symbolIdx s).map Entry.orderId).Nodup := by
  apply ((h.resting symbolIdx s).map Entry.orderId).nodup_iff.mp
  rw [openEntries, List.map_map]
  exact h.nodup.sublist (List.filter_sublist.map _)

/-- One open order changes, and with it its side list. -/
lemma of_change (h : m.InStep) (horders : m.orders = as ++ o :: bs)
    (horders' : m'.orders = as ++ o' :: bs) (hopen : o.isOpen = true)
    (hid : o'.orderId = o.orderId) (hsymbol : o'.symbolIdx = o.symbolIdx) (hside : o'.side = o.side)
    (hnext : m'.nextOrderId = m.nextOrderId) (hothers : ∀ symbolIdx s,
      symbolIdx ≠ o.symbolIdx ∨ s ≠ o.side → m'.entries symbolIdx s = m.entries symbolIdx s)
    {rest : List (Entry P)} (hbefore : (m.entries o.symbolIdx o.side).Perm (o.entry :: rest))
    (hafter : (m'.entries o.symbolIdx o.side).Perm
      (openEntries o.symbolIdx o.side [o'] ++ rest))
    (hsorted : (m'.entries o.symbolIdx o.side).Pairwise (Entry.Le o.side)) : m'.InStep where
  fresh := by
    rw [horders', hnext]
    exact replaced_fresh hid (horders ▸ h.fresh)
  nodup := by
    rw [horders', replaced_ids hid, ← horders]
    exact h.nodup
  resting symbolIdx s := by
    have hresting := h.resting symbolIdx s
    rw [horders, openEntries_append, openEntries_cons] at hresting
    rw [horders', openEntries_append, openEntries_cons]
    by_cases hhere : symbolIdx = o.symbolIdx ∧ s = o.side
    · obtain ⟨rfl, rfl⟩ := hhere
      rw [openEntries_of_rests (Order.restsIn_iff.mpr ⟨hopen, rfl, rfl⟩)] at hresting
      have hrest := (List.perm_middle.symm.trans (hresting.trans hbefore)).cons_inv
      exact (List.perm_append_comm_assoc _ _ _).trans ((hrest.append_left _).trans hafter.symm)
    · have haway : symbolIdx ≠ o.symbolIdx ∨ s ≠ o.side := by tauto
      have hnot : ∀ a : Order P, a.symbolIdx = o.symbolIdx → a.side = o.side →
          ¬a.restsIn symbolIdx s = true := by
        intro a hsym hs hrests
        obtain ⟨-, rfl, rfl⟩ := Order.restsIn_iff.mp hrests
        exact hhere ⟨hsym, hs⟩
      rw [openEntries_of_not_rests (hnot o rfl rfl)] at hresting
      rw [openEntries_of_not_rests (hnot o' hsymbol hside), hothers symbolIdx s haway]
      exact hresting
  sorted symbolIdx s := by
    by_cases hhere : symbolIdx = o.symbolIdx ∧ s = o.side
    · obtain ⟨rfl, rfl⟩ := hhere
      exact hsorted
    · rw [hothers symbolIdx s (by tauto)]
      exact h.sorted symbolIdx s

/-- A new order that is put to rest. -/
lemma insertResting (h : m.InStep) (hopen : o.isOpen = true) (hid : o.orderId < m.nextOrderId)
    (hnew : ∀ o' ∈ m.orders, o'.orderId ≠ o.orderId) :
    ({ m with orders := m.orders ++ [o] }.insertResting o).InStep where
  fresh := by
    intro o' ho'
    rcases List.mem_append.mp ho' with ho' | ho'
    · exact h.fresh o' ho'
    · exact List.mem_singleton.mp ho' ▸ hid
  nodup := nodup_orderId_snoc h.nodup hnew
  resting symbolIdx s := by
    show (openEntries symbolIdx s (m.orders ++ [o])).Perm _
    rw [openEntries_append]
    by_cases hhere : symbolIdx = o.symbolIdx ∧ s = o.side
    · obtain ⟨rfl, rfl⟩ := hhere
      rw [openEntries_of_rests (Order.restsIn_iff.mpr ⟨hopen, rfl, rfl⟩),
        MatchingEngine.insertResting, entries_setEntries]
      exact ((h.resting _ _).append_right _).trans (List.perm_insertionSort _ _).symm
    · have hnot : ¬o.restsIn symbolIdx s = true := by
        intro hrests
        obtain ⟨-, rfl, rfl⟩ := Order.restsIn_iff.mp hrests
        exact hhere ⟨rfl, rfl⟩
      rw [openEntries_of_not_rests hnot, List.append_nil, MatchingEngine.insertResting,
        entries_setEntries_of_ne (by tauto)]
      exact h.resting symbolIdx s
  sorted symbolIdx s := by
    by_cases hhere : symbolIdx = o.symbolIdx ∧ s = o.side
    · obtain ⟨rfl, rfl⟩ := hhere
      rw [MatchingEngine.insertResting, entries_setEntries]
      exact List.pairwise_insertionSort _ _
    · rw [MatchingEngine.insertResting, entries_setEntries_of_ne (by tauto)]
      exact h.sorted symbolIdx s

end InStep

end MatchingEngine

/-! ### Matching -/

/-- What `_match` leaves as it is. -/
structure Match.Frame (k k' : Match P) : Prop where
  nextOrderId : k'.nextOrderId = k.nextOrderId
  ids : k'.orders.map Order.orderId = k.orders.map Order.orderId
  quantities : k'.orders.map (fun o => (o.orderId, o.quantity))
    = k.orders.map fun o => (o.orderId, o.quantity)
  incoming : k'.incoming = { k.incoming with
    remainingQty := k'.incoming.remainingQty
    status := k'.incoming.status }
  filled : k'.incoming = k.incoming ∨
    (0 < k'.incoming.remainingQty → k'.incoming.status ≠ .rejected → k'.incoming.isOpen = true)
  trades : ∃ ts, k'.trades = k.trades ++ ts ∧ k'.matched = k.matched ++ ts ∧
    ∀ t ∈ ts, t.symbolIdx = k.incoming.symbolIdx
  snapshots : k'.snapshots = k.snapshots

/-- What a change keeps of each order, it keeps of the list. -/
lemma map_replaceF {β : Type*} {f : Order P → β} {change : Order P → Option (Order P)}
    {orders : List (Order P)} (h : ∀ o o', change o = some o' → f o' = f o) :
    (orders.replaceF change).map f = orders.map f := by
  induction orders with
  | nil => rfl
  | cons o orders ih =>
    cases hc : change o with
    | none => rw [List.replaceF_cons_of_none _ hc, List.map_cons, List.map_cons, ih]
    | some o' => rw [List.replaceF_cons_of_some _ hc, List.map_cons, List.map_cons, h o o' hc]

/-- A fill changes what is open of the order, and its status. -/
lemma Entry.eq_of_filled {e : Entry P} {o o' : Order P} (h : e.filled o = some o') :
    o' = { o with remainingQty := o'.remainingQty, status := o'.status } := by
  rw [Entry.filled] at h
  split at h
  · cases h
    rfl
  · cases h

namespace Match

variable {k k' k'' : Match P} {e : Entry P}

lemma Frame.refl (k : Match P) : k.Frame k where
  nextOrderId := rfl
  ids := rfl
  quantities := rfl
  incoming := rfl
  filled := .inl rfl
  trades := ⟨[], by simp⟩
  snapshots := rfl

lemma Frame.trans (h : k.Frame k') (h' : k'.Frame k'') : k.Frame k'' where
  nextOrderId := h'.nextOrderId.trans h.nextOrderId
  ids := h'.ids.trans h.ids
  quantities := h'.quantities.trans h.quantities
  incoming := by rw [h'.incoming, h.incoming]
  filled := by
    rcases h'.filled with heq | hopen
    · rw [heq]
      exact h.filled
    · exact .inr hopen
  trades := by
    obtain ⟨ts, htrades, hmatched, hts⟩ := h.trades
    obtain ⟨ts', htrades', hmatched', hts'⟩ := h'.trades
    refine ⟨ts ++ ts', by simp [htrades', htrades], by simp [hmatched', hmatched], ?_⟩
    rw [h.incoming] at hts'
    exact fun t ht => (List.mem_append.mp ht).elim (hts t) (hts' t)
  snapshots := h'.snapshots.trans h.snapshots

/-- The orders of the list are those that were there. -/
lemma Frame.exists_old (h : k.Frame k') {o : Order P} (ho : o ∈ k'.orders) :
    ∃ o₀ ∈ k.orders, o₀.orderId = o.orderId :=
  List.mem_map.mp (h.ids ▸ List.mem_map_of_mem ho)

lemma Frame.exists_new (h : k.Frame k') {o : Order P} (ho : o ∈ k.orders) :
    ∃ o' ∈ k'.orders, o'.orderId = o.orderId :=
  List.mem_map.mp (h.ids.symm ▸ List.mem_map_of_mem ho)

/-- An order that is left over is still open. -/
lemma Frame.isOpen (h : k.Frame k') (hpos : 0 < k'.incoming.remainingQty)
    (hne : k'.incoming.status ≠ .rejected) (hopen : k.incoming.isOpen = true) :
    k'.incoming.isOpen = true :=
  h.filled.elim (fun heq => heq ▸ hopen) fun hfilled => hfilled hpos hne

lemma fill_frame (k : Match P) (e : Entry P) : k.Frame (k.fill e).1 where
  nextOrderId := rfl
  ids := map_replaceF fun o o' hc => by rw [Entry.eq_of_filled hc]
  quantities := map_replaceF fun o o' hc => by rw [Entry.eq_of_filled hc]
  incoming := rfl
  filled := by
    refine .inr fun hpos _ => ?_
    have hstatus : (k.fill e).1.incoming.status = .partiallyFilled := if_pos hpos
    simp [Order.isOpen, hstatus]
  trades := ⟨[k.trade e], rfl, rfl, fun t ht => List.mem_singleton.mp ht ▸ rfl⟩
  snapshots := rfl

variable [LinearOrder P]

lemma fill_of_visit {left : Option (Entry P)} (h : k.visit e = some (k', left)) :
    k' = (k.fill e).1 ∧ left = (k.fill e).2 := by
  rw [visit] at h
  split at h
  · cases h
  · have hfill := Option.some.inj h
    rw [hfill]
    exact ⟨rfl, rfl⟩

lemma sweep_frame (k : Match P) (l : List (Entry P)) : k.Frame (Sweep.sweep visit k l).1 := by
  refine (Sweep.sweep_forall (I := fun k' => k.Frame k') (Q := fun _ => True) ?_ (.refl k)
    (by simp)).1
  intro k' e k'' left hframe _ hv
  obtain ⟨rfl, -⟩ := fill_of_visit hv
  exact ⟨hframe.trans (fill_frame k' e), by simp⟩

lemma sweep_books (k : Match P) (l : List (Entry P)) :
    (Sweep.sweep visit k l).1.books = k.books := by
  refine (Sweep.sweep_forall (I := fun k' : Match P => k'.books = k.books) (Q := fun _ => True)
    ?_ rfl (by simp)).1
  intro k' e k'' left hbooks _ hv
  obtain ⟨rfl, -⟩ := fill_of_visit hv
  exact ⟨hbooks, by simp⟩

omit [LinearOrder P] in
/-- What is left of an entry. -/
lemma fill_left {e' : Entry P} (h : (k.fill e).2 = some e') : e'.price = e.price ∧
    e'.orderId = e.orderId ∧ e'.side = e.side ∧
    e'.remainingQty = e.remainingQty - min k.incoming.remainingQty e.remainingQty ∧
    e'.remainingQty ≠ 0 := by
  replace h : (if e.remainingQty - min k.incoming.remainingQty e.remainingQty = 0 then none
    else some { e with
      remainingQty := e.remainingQty - min k.incoming.remainingQty e.remainingQty }) = some e' := h
  split at h
  · cases h
  · rename_i hne
    cases h
    exact ⟨rfl, rfl, rfl, rfl, hne⟩

omit [LinearOrder P] in
/-- An order that is not done with takes all that an entry has. -/
lemma fill_eq_none (h : 0 < (k.fill e).1.incoming.remainingQty) : (k.fill e).2 = none := by
  replace h : 0 < k.incoming.remainingQty - min k.incoming.remainingQty e.remainingQty := h
  have hmin : e.remainingQty - min k.incoming.remainingQty e.remainingQty = 0 := by omega
  exact if_pos hmin

/-- An order that has nothing left is filled no further. -/
lemma pos_of_visit {left : Option (Entry P)} (h : k.visit e = some (k', left)) :
    0 < k.incoming.remainingQty ∧ k.incoming.priceOk e.price = true := by
  rw [visit] at h
  split at h
  · cases h
  · rename_i hgo
    simpa using hgo

/-- What becomes of the order after `_match`. -/
inductive Settles (k k' : Match P) : Prop
  | done (status : OrderStatus) (hk' : k' = { k with incoming := { k.incoming with status } })
  | rests (hpos : 0 < k.incoming.remainingQty) (hstatus : k.incoming.status ≠ .rejected)
      (hlimit : k.incoming.orderType ≠ .market)
      (hk' : k' = { k with toMatchingEngine :=
        { k.toMatchingEngine with orders := k.orders ++ [k.incoming] }.insertResting k.incoming })

lemma settles (k : Match P) : k.Settles k.settle := by
  rw [settle]
  simp only
  split
  · rename_i hpos
    split
    · exact .done .cancelled rfl
    · rename_i hleave
      split
      · exact .done .rejected rfl
      · exact .rests hpos.1 hpos.2.2 (fun hmarket => hleave (.inl hmarket)) rfl
  · split
    · exact .done .filled rfl
    · exact .done k.incoming.status rfl

/-- What comes after `_match` gives the order its status, and at most adds it. -/
structure SettleFrame (k k' : Match P) : Prop where
  nextOrderId : k'.nextOrderId = k.nextOrderId
  trades : k'.trades = k.trades
  events : k'.events = k.events
  snapshots : k'.snapshots = k.snapshots
  incoming : k'.incoming = { k.incoming with status := k'.incoming.status }
  kept : ∀ o ∈ k.orders, o ∈ k'.orders
  listed : ∀ o ∈ k'.orders, o ∈ k.orders ∨ o = k'.incoming
  entries : ∀ symbolIdx ≠ k.incoming.symbolIdx, ∀ s, k'.entries symbolIdx s = k.entries symbolIdx s

lemma settle_frame (k : Match P) : k.SettleFrame k.settle := by
  cases k.settles with
  | done status hk' =>
    rw [hk']
    exact ⟨rfl, rfl, rfl, rfl, rfl, fun _ ho => ho, fun _ ho => .inl ho, fun _ _ _ => rfl⟩
  | rests hpos hstatus hlimit hk' =>
    rw [hk']
    refine ⟨rfl, rfl, rfl, rfl, rfl, fun _ ho => List.mem_append_left _ ho, fun o ho => ?_,
      fun _ hne _ => MatchingEngine.entries_setEntries_of_ne (.inl hne)⟩
    exact (List.mem_append.mp ho).imp_right List.mem_singleton.mp

omit [LinearOrder P] in
lemma SettleFrame.orderId (h : k.SettleFrame k') : k'.incoming.orderId = k.incoming.orderId := by
  rw [h.incoming]

end Match

namespace MatchingEngine

variable [LinearOrder P] {m : MatchingEngine P} {symbolIdx : ℕ} {s : Side} {e : Entry P}

lemma entries_sweepOpposite (incoming : Order P) :
    (m.sweepOpposite incoming).entries incoming.symbolIdx incoming.side.opposite
      = (Sweep.sweep Match.visit ⟨m, incoming, []⟩
        (m.entries incoming.symbolIdx incoming.side.opposite)).2 := entries_setEntries

lemma entries_sweepOpposite_of_ne {incoming : Order P}
    (h : symbolIdx ≠ incoming.symbolIdx ∨ s ≠ incoming.side.opposite) :
    (m.sweepOpposite incoming).entries symbolIdx s = m.entries symbolIdx s := by
  have hbooks := Match.sweep_books ⟨m, incoming, []⟩
    (m.entries incoming.symbolIdx incoming.side.opposite)
  refine (entries_setEntries_of_ne h).trans ?_
  rw [entries, hbooks]
  rfl

/-- An entry that is kept has its price. -/
lemma sorted_left {done todo : List (Entry P)} {left : Option (Entry P)}
    (h : (done ++ e :: todo).Pairwise (Entry.Le s)) (hleft : ∀ e' ∈ left, e'.price = e.price) :
    (done ++ (left.toList ++ todo)).Pairwise (Entry.Le s) := by
  have hprices : ((done ++ e :: todo).map Entry.price).Pairwise (KeyLe s) :=
    List.pairwise_map.mpr h
  have hrest : ((done ++ (left.toList ++ todo)).map Entry.price).Pairwise (KeyLe s) := by
    refine hprices.sublist ?_
    simp only [List.map_append, List.map_cons]
    apply (List.Sublist.refl _).append
    cases left with
    | none => exact List.sublist_cons_self _ _
    | some e' =>
      rw [← hleft e' rfl]
      exact List.Sublist.refl _
  exact (List.pairwise_map (R := KeyLe s)).mp hrest

namespace InStep

/-- A fill writes to the order behind the entry, and that order is broadcast. -/
lemma fill_written {k : Match P} {l : List (Entry P)}
    (h : (k.setEntries symbolIdx s l).InStep) (he : e ∈ l) :
    ∃ o ∈ k.orders, o.isOpen = true ∧ o.symbolIdx = symbolIdx ∧ o.side = s ∧ e = o.entry ∧
      ∃ as bs, k.orders = as ++ o :: bs ∧
        (k.fill e).1.orders = as ++ o.fill k.incoming.remainingQty :: bs ∧
        (k.fill e).1.events = k.events ++ [.order (o.fill k.incoming.remainingQty)] := by
  have hmem : e ∈ (k.setEntries symbolIdx s l).entries symbolIdx s := by
    rw [entries_setEntries]
    exact he
  obtain ⟨o, ho, hrests, rfl⟩ := h.exists_order hmem
  obtain ⟨hopen, hsymbol, hside⟩ := Order.restsIn_iff.mp hrests
  have hchange : (k.left o.entry).filled o = some (o.fill k.incoming.remainingQty) := if_pos rfl
  obtain ⟨as, bs, horders, horders', hevents⟩ := writeBack_split h.nodup ho hchange
    fun a _ hne => if_neg hne
  exact ⟨o, ho, hopen, hsymbol, hside, rfl, as, bs, horders, horders', hevents⟩

/-- A fill writes to the order behind the entry. -/
lemma fill_orders {k : Match P} {l : List (Entry P)}
    (h : (k.setEntries symbolIdx s l).InStep) (he : e ∈ l) :
    ∃ o ∈ k.orders, o.isOpen = true ∧ o.symbolIdx = symbolIdx ∧ o.side = s ∧ e = o.entry ∧
      ∃ as bs, k.orders = as ++ o :: bs ∧
        (k.fill e).1.orders = as ++ o.fill k.incoming.remainingQty :: bs := by
  obtain ⟨o, ho, hopen, hsymbol, hside, hentry, as, bs, horders, horders', -⟩ := h.fill_written he
  exact ⟨o, ho, hopen, hsymbol, hside, hentry, as, bs, horders, horders'⟩

/-- A fill writes to the entry and to the order behind it. -/
lemma fill {k : Match P} {done todo : List (Entry P)}
    (h : (k.setEntries symbolIdx s (done ++ e :: todo)).InStep) :
    ((k.fill e).1.setEntries symbolIdx s (done ++ ((k.fill e).2.toList ++ todo))).InStep := by
  obtain ⟨o, ho, hopen, rfl, rfl, rfl, as, bs, horders, horders'⟩ :=
    h.fill_orders (e := e) (by simp)
  set o' := o.fill k.incoming.remainingQty with ho'
  have hopenEntries : openEntries o.symbolIdx o.side [o'] = (k.fill o.entry).2.toList := by
    show _ = (if o'.remainingQty = 0 then none else some o'.entry).toList
    by_cases hz : o'.remainingQty = 0
    · rw [if_pos hz]
      apply openEntries_of_not_rests
      intro hrests'
      have hfilled : o'.status = .filled := if_pos hz
      simp [Order.restsIn, Order.isOpen, hfilled] at hrests'
    · rw [if_neg hz]
      apply openEntries_of_rests
      have hpartial : o'.status = .partiallyFilled := if_neg hz
      exact Order.restsIn_iff.mpr ⟨by simp [Order.isOpen, hpartial], rfl, rfl⟩
  have hbefore : ((k.setEntries o.symbolIdx o.side (done ++ o.entry :: todo)).entries
      o.symbolIdx o.side).Perm (o.entry :: (done ++ todo)) := by
    rw [entries_setEntries]
    exact List.perm_middle
  refine h.of_change horders horders' hopen rfl rfl rfl rfl (fun symbolIdx s haway => ?_) hbefore
    ?_ ?_
  · rw [entries_setEntries_of_ne haway, entries_setEntries_of_ne haway]
    rfl
  · rw [entries_setEntries, hopenEntries]
    exact List.perm_append_comm_assoc _ _ _
  · have hsorted := h.sorted o.symbolIdx o.side
    rw [entries_setEntries] at hsorted ⊢
    exact sorted_left hsorted fun e' he' => (Match.fill_left he').1

lemma sweepOpposite (h : m.InStep) (incoming : Order P) :
    (m.sweepOpposite incoming).InStep := by
  apply Sweep.sweep_invariant Match.visit (P := fun (k : Match P) l =>
    (k.setEntries incoming.symbolIdx incoming.side.opposite l).InStep)
  · intro k done e todo k' left hk hv
    obtain ⟨rfl, rfl⟩ := Match.fill_of_visit hv
    exact hk.fill
  · rwa [setEntries_entries]

end InStep

/-! ### Requests -/

lemma matchIncoming_frame (m : MatchingEngine P) (incoming : Order P) :
    Match.Frame ⟨m, incoming, []⟩ (m.matchIncoming incoming) := by
  rw [matchIncoming]
  split
  · exact { Match.Frame.refl _ with filled := .inr fun _ hne => absurd rfl hne }
  · have hframe := Match.sweep_frame ⟨m, incoming, []⟩
      (m.entries incoming.symbolIdx incoming.side.opposite)
    exact ⟨hframe.nextOrderId, hframe.ids, hframe.quantities, hframe.incoming, hframe.filled,
      hframe.trades, hframe.snapshots⟩

lemma orderId_matchIncoming (m : MatchingEngine P) (incoming : Order P) :
    (m.matchIncoming incoming).incoming.orderId = incoming.orderId := by
  rw [(matchIncoming_frame m incoming).incoming]

/-- `_match` gets no order that is in the list already, and puts none there. -/
lemma orderId_ne_of_matchIncoming {incoming : Order P}
    (hnew : ∀ o ∈ m.orders, o.orderId ≠ incoming.orderId) :
    ∀ o ∈ (m.matchIncoming incoming).orders, o.orderId ≠ incoming.orderId := by
  intro o ho heq
  obtain ⟨o₀, ho₀, hid⟩ := (matchIncoming_frame m incoming).exists_old ho
  exact hnew o₀ ho₀ (hid.trans heq)

lemma entries_matchIncoming_of_ne {incoming : Order P} (h : symbolIdx ≠ incoming.symbolIdx) :
    (m.matchIncoming incoming).entries symbolIdx s = m.entries symbolIdx s := by
  rw [matchIncoming]
  split
  · rfl
  · exact entries_sweepOpposite_of_ne (.inl h)

/-- What a request about a symbol leaves as it is. -/
structure Touches [Zero P] (symbolIdx : ℕ) (m m' : MatchingEngine P) : Prop where
  entries : ∀ symbolIdx' ≠ symbolIdx, ∀ s, m'.entries symbolIdx' s = m.entries symbolIdx' s
  trades : ∃ ts, m'.trades = m.trades ++ ts ∧ ∀ t ∈ ts, t.symbolIdx = symbolIdx
  snapshots : m'.snapshots = Function.update m.snapshots symbolIdx (some (m'.snapshot symbolIdx))

/-- `submit_order` takes the next id, and leaves other symbols as they are. -/
lemma submitOrder_frame [Zero P] (m : MatchingEngine P) (symbolIdx : ℕ) (r : Submission P) :
    (m.submitOrder symbolIdx r).1.nextOrderId = m.nextOrderId + 1 ∧
      m.Touches symbolIdx (m.submitOrder symbolIdx r).1 := by
  set entered : MatchingEngine P := { m with nextOrderId := m.nextOrderId + 1 } with hentered
  set k := entered.matchIncoming (r.order symbolIdx m.nextOrderId) with hk
  have hframe : Match.Frame ⟨entered, r.order symbolIdx m.nextOrderId, []⟩ k :=
    matchIncoming_frame _ _
  have hsymbol : k.incoming.symbolIdx = symbolIdx := by
    rw [hframe.incoming]
    rfl
  have hsettled := k.settle_frame
  refine ⟨hsettled.nextOrderId.trans hframe.nextOrderId, ?_, ?_, ?_⟩
  · intro symbolIdx' hne s
    exact (hsettled.entries symbolIdx' (hsymbol ▸ hne) s).trans (entries_matchIncoming_of_ne hne)
  · obtain ⟨ts, hts, -, hall⟩ := hframe.trades
    exact ⟨ts, hsettled.trades.trans hts, hall⟩
  · show Function.update k.settle.snapshots symbolIdx _ = _
    rw [hsettled.snapshots, hframe.snapshots]
    rfl

omit [LinearOrder P] in
/-- What the loops of a cancel and an amend find. -/
lemma exists_of_changeOpen {id : ℕ} {change : Order P → Order P} {o' : Order P}
    (h : m.orders.findSome? (changeOpen id change) = some o') :
    ∃ o ∈ m.orders, o.orderId = id ∧ o.isOpen = true ∧ o' = change o := by
  obtain ⟨o, ho, hchange⟩ := List.exists_of_findSome?_eq_some h
  rw [changeOpen] at hchange
  split at hchange
  · rename_i hfound
    exact ⟨o, ho, hfound.1, hfound.2, (Option.some.inj hchange).symm⟩
  · cases hchange

omit [LinearOrder P] in
/-- What a cancel finds. -/
lemma exists_of_cancelOrder [Zero P] {id : ℕ} {r : MatchingEngine P × Order P}
    (hr : m.cancelOrder id = some r) : ∃ o ∈ m.orders, o.orderId = id ∧ o.isOpen = true ∧
      r = (((m.writeBack (cancelled id)).removeFromBook
          { o with status := .cancelled }).updateSnapshot o.symbolIdx,
        { o with status := .cancelled }) := by
  obtain ⟨o', ho', rfl⟩ := Option.map_eq_some_iff.mp hr
  obtain ⟨o, ho, hid, hopen, rfl⟩ := exists_of_changeOpen ho'
  exact ⟨o, ho, hid, hopen, rfl⟩

omit [LinearOrder P] in
/-- A cancel of an open order is accepted. -/
lemma exists_cancelOrder [Zero P] {id : ℕ} {o : Order P} (ho : o ∈ m.orders) (hid : o.orderId = id)
    (hopen : o.isOpen = true) : ∃ r, m.cancelOrder id = some r := by
  apply Option.isSome_iff_exists.mp
  rw [cancelOrder, Option.isSome_map, List.findSome?_isSome_iff]
  exact ⟨o, ho, by simp [cancelled, changeOpen, hid, hopen]⟩

/-- An amend of an open order is accepted. -/
lemma exists_amendOrder [Zero P] {id : ℕ} {o : Order P} (ho : o ∈ m.orders) (hid : o.orderId = id)
    (hopen : o.isOpen = true) (newPrice : Option P) (newQuantity : Option ℤ) :
    ∃ r, m.amendOrder id newPrice newQuantity = some r := by
  apply Option.isSome_iff_exists.mp
  rw [amendOrder, Option.isSome_map, List.findSome?_isSome_iff]
  exact ⟨o, ho, by simp [amended, changeOpen, hid, hopen]⟩

/-- What an amend finds. -/
lemma exists_of_amendOrder [Zero P] {id : ℕ} {newPrice : Option P} {newQuantity : Option ℤ}
    {r : MatchingEngine P × Order P} (hr : m.amendOrder id newPrice newQuantity = some r) :
    ∃ o ∈ m.orders, o.orderId = id ∧ o.isOpen = true ∧
      r = ((((m.writeBack (amended id newPrice newQuantity)).removeFromBook
        (o.amend newPrice newQuantity)).insertResting (o.amend newPrice newQuantity)).updateSnapshot
          o.symbolIdx, o.amend newPrice newQuantity) := by
  obtain ⟨o', ho', rfl⟩ := Option.map_eq_some_iff.mp hr
  obtain ⟨o, ho, hid, hopen, rfl⟩ := exists_of_changeOpen ho'
  exact ⟨o, ho, hid, hopen, rfl⟩

namespace InStep

lemma matchIncoming (h : m.InStep) (incoming : Order P) : (m.matchIncoming incoming).InStep := by
  rw [MatchingEngine.matchIncoming]
  split
  · exact h
  · exact h.sweepOpposite incoming

/-- Only the order list and the side lists matter. -/
lemma congr {m' : MatchingEngine P} (h : m.InStep) (horders : m'.orders = m.orders)
    (hnext : m.nextOrderId ≤ m'.nextOrderId) (hbooks : m'.books = m.books) : m'.InStep where
  fresh := horders ▸ fun o ho => (h.fresh o ho).trans_le hnext
  nodup := horders ▸ h.nodup
  resting symbolIdx s := by
    rw [horders, entries, hbooks]
    exact h.resting symbolIdx s
  sorted symbolIdx s := by
    rw [entries, hbooks]
    exact h.sorted symbolIdx s

lemma settle {k : Match P} (h : k.InStep) (hopen : 0 < k.incoming.remainingQty →
      k.incoming.status ≠ .rejected → k.incoming.isOpen = true)
    (hid : k.incoming.orderId < k.nextOrderId)
    (hnew : ∀ o ∈ k.orders, o.orderId ≠ k.incoming.orderId) : k.settle.InStep := by
  cases k.settles with
  | done status hk' =>
    rw [hk']
    exact h
  | rests hpos hstatus hlimit hk' =>
    rw [hk']
    exact h.insertResting (hopen hpos hstatus) hid hnew

section

variable [Zero P]

/-- A new order keeps the two in step. -/
theorem submitOrder (h : m.InStep) (symbolIdx : ℕ) (r : Submission P) :
    (m.submitOrder symbolIdx r).1.InStep := by
  set entered : MatchingEngine P := { m with nextOrderId := m.nextOrderId + 1 } with hentered
  have hm : entered.InStep := h.congr rfl (Nat.le_succ _) rfl
  set k := entered.matchIncoming (r.order symbolIdx m.nextOrderId) with hk
  have hframe : Match.Frame ⟨entered, r.order symbolIdx m.nextOrderId, []⟩ k :=
    matchIncoming_frame _ _
  have hid : k.incoming.orderId = m.nextOrderId := orderId_matchIncoming _ _
  have hnew : ∀ o ∈ k.orders, o.orderId ≠ k.incoming.orderId := by
    rw [hid]
    exact orderId_ne_of_matchIncoming (m := entered) fun o ho => (h.fresh o ho).ne
  have hsettled := (hm.matchIncoming (r.order symbolIdx m.nextOrderId)).settle
    (fun hpos hne => hframe.isOpen hpos hne rfl)
    (by rw [hid, hframe.nextOrderId]; exact Nat.lt_succ_self _) hnew
  exact hsettled.congr rfl le_rfl rfl

/-- A cancel is accepted exactly if a side list has the id. -/
theorem cancelOrder_isSome_iff (h : m.InStep) {id : ℕ} : (m.cancelOrder id).isSome = true ↔
    ∃ symbolIdx s, ∃ e ∈ m.entries symbolIdx s, e.orderId = id := by
  constructor
  · intro hsome
    obtain ⟨r, hr⟩ := Option.isSome_iff_exists.mp hsome
    obtain ⟨o, ho, rfl, hopen, -⟩ := exists_of_cancelOrder hr
    exact ⟨o.symbolIdx, o.side, o.entry, h.entry_mem ho hopen, rfl⟩
  · rintro ⟨symbolIdx, s, e, he, rfl⟩
    obtain ⟨o, ho, hrests, rfl⟩ := h.exists_order he
    rw [cancelOrder, Option.isSome_map, List.findSome?_isSome_iff]
    exact ⟨o, ho, by simp [cancelled, changeOpen, Order.entry, (Order.restsIn_iff.mp hrests).1]⟩

end

omit [LinearOrder P] in
lemma entries_removeFromBook_of_ne (h : symbolIdx ≠ o.symbolIdx ∨ s ≠ o.side) :
    (m.removeFromBook o).entries symbolIdx s = m.entries symbolIdx s :=
  entries_setEntries_of_ne h

/-- An open order loses its entry. -/
lemma entries_removeFromBook (h : m.InStep) (ho : o ∈ m.orders) (hid : o'.orderId = o.orderId)
    (hsymbol : o'.symbolIdx = o.symbolIdx) (hside : o'.side = o.side) (symbolIdx : ℕ) (s : Side) :
    (m.removeFromBook o').entries symbolIdx s
      = (m.entries symbolIdx s).filter fun e => e.orderId ≠ o.orderId := by
  by_cases hhere : symbolIdx = o.symbolIdx ∧ s = o.side
  · obtain ⟨rfl, rfl⟩ := hhere
    rw [removeFromBook, ← hsymbol, ← hside, entries_setEntries, hid]
    exact Sorted.eraseP_eq_filter (h.nodup_entries o'.symbolIdx o'.side) o.orderId
  · have haway : symbolIdx ≠ o'.symbolIdx ∨ s ≠ o'.side := by
      rw [hsymbol, hside]
      tauto
    rw [entries_removeFromBook_of_ne haway]
    refine (List.filter_eq_self.mpr fun e he => decide_eq_true ?_).symm
    intro heq
    obtain ⟨a, ha, hrests, rfl⟩ := h.exists_order he
    obtain rfl := h.eq_of_orderId ha ho heq
    obtain ⟨-, rfl, rfl⟩ := Order.restsIn_iff.mp hrests
    exact hhere ⟨rfl, rfl⟩

/-- The entry of an open order, and the others of its side. -/
lemma perm_entries (h : m.InStep) (ho : o ∈ m.orders) (hopen : o.isOpen = true) :
    (m.entries o.symbolIdx o.side).Perm
      (o.entry :: (m.entries o.symbolIdx o.side).filter fun e => e.orderId ≠ o.orderId) := by
  have hmem := h.entry_mem ho hopen
  have hnodup := h.nodup_entries o.symbolIdx o.side
  obtain ⟨e, l₁, l₂, -, hid, hsplit, herase⟩ :=
    List.exists_of_eraseP (p := fun e => decide (e.orderId = o.orderId)) hmem (decide_eq_true rfl)
  have he : e = o.entry :=
    List.inj_on_of_nodup_map hnodup (by simp [hsplit]) hmem (of_decide_eq_true hid)
  have hfilter := Sorted.eraseP_eq_filter hnodup o.orderId
  rw [← hfilter, herase, hsplit, he]
  exact List.perm_middle

section

variable [Zero P]

/-- What a cancel does. -/
theorem cancelOrder_spec (h : m.InStep) {id : ℕ} {r : MatchingEngine P × Order P}
    (hr : m.cancelOrder id = some r) :
    r.1.InStep ∧ r.2.orderId = id ∧ r.2.status = .cancelled ∧ r.1.nextOrderId = m.nextOrderId ∧
      r.1.trades = m.trades ∧ r.1.events = m.events ++ [.order r.2] ∧
      ∀ symbolIdx s, r.1.entries symbolIdx s
        = (m.entries symbolIdx s).filter fun e => e.orderId ≠ id := by
  obtain ⟨o, ho, rfl, hopen, rfl⟩ := exists_of_cancelOrder hr
  set o' : Order P := { o with status := .cancelled }
  obtain ⟨as, bs, horders, horders', hevents⟩ := cancelled_split h.nodup ho hopen
  have hentries : ∀ symbolIdx s,
      ((m.writeBack (cancelled o.orderId)).removeFromBook o').entries symbolIdx s
        = (m.entries symbolIdx s).filter fun e => e.orderId ≠ o.orderId :=
    h.entries_removeFromBook ho rfl rfl rfl
  refine ⟨?_, rfl, rfl, rfl, rfl, hevents, hentries⟩
  refine h.of_change horders horders' hopen rfl rfl rfl rfl (fun symbolIdx s haway => ?_)
    (h.perm_entries ho hopen) ?_ ?_
  · exact entries_removeFromBook_of_ne haway
  · rw [openEntries_of_not_rests (by simp [Order.restsIn, Order.isOpen]), List.nil_append]
    exact .of_eq (hentries _ _)
  · exact (hentries o.symbolIdx o.side).symm ▸ (h.sorted _ _).filter _

/-- What an amend does: the entry goes behind the others of its new price. -/
theorem amendOrder_spec (h : m.InStep) {id : ℕ} {newPrice : Option P} {newQuantity : Option ℤ}
    {r : MatchingEngine P × Order P} (hr : m.amendOrder id newPrice newQuantity = some r) :
    ∃ o ∈ m.orders, o.orderId = id ∧ o.isOpen = true ∧ r.2 = o.amend newPrice newQuantity ∧
      r.1.InStep ∧ r.1.nextOrderId = m.nextOrderId ∧ r.1.trades = m.trades ∧
      (∃ as bs, m.orders = as ++ o :: bs ∧ r.1.orders = as ++ r.2 :: bs) ∧
      (∀ symbolIdx s, symbolIdx ≠ o.symbolIdx ∨ s ≠ o.side →
        r.1.entries symbolIdx s = m.entries symbolIdx s) ∧
      r.1.entries o.symbolIdx o.side = (((m.entries o.symbolIdx o.side).filter fun e =>
        e.orderId ≠ id) ++ [r.2.entry]).insertionSort (Entry.Le o.side) := by
  obtain ⟨o, ho, rfl, hopen, rfl⟩ := exists_of_amendOrder hr
  set o' := o.amend newPrice newQuantity with ho'
  obtain ⟨as, bs, horders, horders', -⟩ :=
    amended_split h.nodup ho hopen newPrice newQuantity
  set removed := (m.writeBack (amended o.orderId newPrice newQuantity)).removeFromBook o'
    with hremoved
  have hentries : removed.entries o.symbolIdx o.side
      = (m.entries o.symbolIdx o.side).filter fun e => e.orderId ≠ o.orderId :=
    h.entries_removeFromBook ho rfl rfl rfl o.symbolIdx o.side
  have hothers : ∀ symbolIdx s, symbolIdx ≠ o.symbolIdx ∨ s ≠ o.side →
      (removed.insertResting o').entries symbolIdx s = m.entries symbolIdx s := fun _ _ haway =>
    (entries_setEntries_of_ne haway).trans (entries_removeFromBook_of_ne haway)
  have hinserted : (removed.insertResting o').entries o.symbolIdx o.side
      = (((m.entries o.symbolIdx o.side).filter fun e => e.orderId ≠ o.orderId)
        ++ [o'.entry]).insertionSort (Entry.Le o.side) := by
    rw [← hentries]
    exact entries_setEntries
  have hrests : openEntries o.symbolIdx o.side [o'] = [o'.entry] :=
    openEntries_of_rests (Order.restsIn_iff.mpr ⟨hopen, rfl, rfl⟩)
  refine ⟨o, ho, rfl, hopen, rfl, ?_, rfl, rfl, ⟨as, bs, horders, horders'⟩, hothers, hinserted⟩
  refine h.of_change horders horders' hopen rfl rfl rfl rfl hothers (h.perm_entries ho hopen) ?_ ?_
  · rw [hrests]
    refine (List.Perm.of_eq hinserted).trans ((List.perm_insertionSort _ _).trans ?_)
    exact List.perm_append_comm
  · exact hinserted.symm ▸ List.pairwise_insertionSort _ _

end

end InStep

end MatchingEngine

end EuNEx.Dashboard
