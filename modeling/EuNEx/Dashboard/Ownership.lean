import EuNEx.Dashboard.Bridge

/-!
# Whose orders have entries

With two engines at work on one list of orders, the entries are those of the open orders of the
Python engine only. The bridge changes prices and quantities in the list and leaves the books
alone, so that only the ids of the two are in step.
-/

namespace EuNEx.Dashboard

variable {P : Type*}

/-! ### The list and the books -/

/-- Both parties of the trade are as `p` says. -/
def Trade.Between (t : Trade P) (p : ℕ → Prop) : Prop := p t.buyOrderId ∧ p t.sellOrderId

lemma Trade.Between.imp {t : Trade P} {p q : ℕ → Prop} (h : t.Between p) (hpq : ∀ id, p id → q id) :
    t.Between q := ⟨hpq _ h.1, hpq _ h.2⟩

namespace MatchingEngine

/-- The ids of a side list. -/
def ids (m : MatchingEngine P) (symbolIdx : ℕ) (s : Side) : List ℕ :=
  (m.entries symbolIdx s).map Entry.orderId

/-- The orders of `own` are those of the Python engine: their symbols have books, and the open ones
have the entries. Those of `gone` have been cancelled. -/
structure Owns (symbols : List ℕ) (own gone : ℕ → Prop) (m : MatchingEngine P) : Prop where
  fresh : ∀ o ∈ m.orders, o.orderId < m.nextOrderId
  nodup : (m.orders.map Order.orderId).Nodup
  mem_ids : ∀ symbolIdx s id, id ∈ m.ids symbolIdx s ↔
    ∃ o ∈ m.orders, o.orderId = id ∧ o.restsIn symbolIdx s = true ∧ own id
  known : ∀ o ∈ m.orders, own o.orderId → o.symbolIdx ∈ symbols
  nodup_ids : ∀ symbolIdx s, (m.ids symbolIdx s).Nodup
  gone : ∀ id, gone id → id < m.nextOrderId ∧
    (own id → ∀ o ∈ m.orders, o.orderId = id → o.status = .cancelled)

section

variable {m m' : MatchingEngine P} {symbolIdx : ℕ} {s : Side} {o o' : Order P} {e : Entry P}
  {as bs : List (Order P)} {symbols : List ℕ} {own own' gone gone' : ℕ → Prop} {id : ℕ}

lemma ids_empty (symbolIdx : ℕ) (s : Side) : ({} : MatchingEngine P).ids symbolIdx s = [] := by
  cases s <;> rfl

lemma mem_ids_of_mem (he : e ∈ m.entries symbolIdx s) : e.orderId ∈ m.ids symbolIdx s :=
  List.mem_map_of_mem he

namespace Owns

lemma eq_of_orderId (h : m.Owns symbols own gone) (ho : o ∈ m.orders) (ho' : o' ∈ m.orders)
    (hid : o.orderId = o'.orderId) : o = o' :=
  List.inj_on_of_nodup_map h.nodup ho ho' hid

/-- The order behind an entry. -/
lemma exists_order (h : m.Owns symbols own gone) (hid : id ∈ m.ids symbolIdx s) :
    ∃ o ∈ m.orders, o.orderId = id ∧ o.isOpen = true ∧ o.symbolIdx = symbolIdx ∧ o.side = s ∧
      own id := by
  obtain ⟨o, ho, hoid, hrests, hown⟩ := (h.mem_ids symbolIdx s id).mp hid
  obtain ⟨hopen, hsymbol, hside⟩ := Order.restsIn_iff.mp hrests
  exact ⟨o, ho, hoid, hopen, hsymbol, hside, hown⟩

/-- An id that has an entry has not been cancelled. -/
lemma not_gone (h : m.Owns symbols own gone) (hid : id ∈ m.ids symbolIdx s) : ¬gone id := by
  intro hgone
  obtain ⟨o, ho, hoid, hopen, -, -, hown⟩ := h.exists_order hid
  have hcancelled := (h.gone id hgone).2 hown o ho hoid
  simp [Order.isOpen, hcancelled] at hopen

/-- An order has its entry in the side list of its symbol and side only. -/
lemma not_mem_ids (h : m.Owns symbols own gone) (ho : o ∈ m.orders)
    (haway : symbolIdx ≠ o.symbolIdx ∨ s ≠ o.side) : o.orderId ∉ m.ids symbolIdx s := by
  intro hid
  obtain ⟨o', ho', hoid, -, hsymbol, hside, -⟩ := h.exists_order hid
  obtain rfl := h.eq_of_orderId ho' ho hoid
  tauto

/-- An open order is what the loops of a cancel and an amend find. -/
lemma findSome_changeOpen (h : m.Owns symbols own gone) (ho : o ∈ m.orders)
    (hopen : o.isOpen = true) (change : Order P → Order P) :
    m.orders.findSome? (changeOpen o.orderId change) = some (change o) := by
  have hsome : (m.orders.findSome? (changeOpen o.orderId change)).isSome = true :=
    List.findSome?_isSome_iff.mpr ⟨o, ho, by simp [changeOpen, hopen]⟩
  obtain ⟨o', ho'⟩ := Option.isSome_iff_exists.mp hsome
  obtain ⟨o₁, ho₁, hid, -, rfl⟩ := exists_of_changeOpen ho'
  obtain rfl := h.eq_of_orderId ho₁ ho hid
  exact ho'

lemma find_open (h : m.Owns symbols own gone) (ho : o ∈ m.orders) (hopen : o.isOpen = true) :
    (m.orders.find? fun a => a.orderId = o.orderId ∧ a.isOpen = true) = some o := by
  have hsome : (m.orders.find? fun a => a.orderId = o.orderId ∧ a.isOpen = true).isSome = true :=
    List.find?_isSome.mpr ⟨o, ho, by simp [hopen]⟩
  obtain ⟨o', ho'⟩ := Option.isSome_iff_exists.mp hsome
  obtain ⟨hid, -⟩ : o'.orderId = o.orderId ∧ o'.isOpen = true := by
    simpa using List.find?_some ho'
  obtain rfl := h.eq_of_orderId (List.mem_of_find?_eq_some ho') ho hid
  exact ho'

/-- Only the list and the ids of the side lists matter. -/
lemma congr (h : m.Owns symbols own gone) (horders : m'.orders = m.orders)
    (hnext : m.nextOrderId ≤ m'.nextOrderId)
    (hids : ∀ symbolIdx s, m'.ids symbolIdx s = m.ids symbolIdx s) : m'.Owns symbols own gone where
  fresh := horders ▸ fun o ho => (h.fresh o ho).trans_le hnext
  nodup := horders ▸ h.nodup
  mem_ids symbolIdx s id := by
    rw [hids, horders]
    exact h.mem_ids symbolIdx s id
  known := horders ▸ h.known
  nodup_ids symbolIdx s := hids symbolIdx s ▸ h.nodup_ids symbolIdx s
  gone id hgone := by
    obtain ⟨hlt, hcancelled⟩ := h.gone id hgone
    exact ⟨hlt.trans_le hnext, horders ▸ hcancelled⟩

/-- Ids that have not been given out may go to either engine, and listed orders that are cancelled
may be counted as such. -/
lemma mono (h : m.Owns symbols own gone) (hown : ∀ id < m.nextOrderId, own' id ↔ own id)
    (hgone : ∀ id, gone' id → gone id ∨ id < m.nextOrderId ∧
      ∀ o ∈ m.orders, o.orderId = id → o.status = .cancelled) : m.Owns symbols own' gone' where
  fresh := h.fresh
  nodup := h.nodup
  mem_ids symbolIdx s id := by
    rw [h.mem_ids]
    constructor
    · rintro ⟨o, ho, rfl, hrests, hown'⟩
      exact ⟨o, ho, rfl, hrests, (hown _ (h.fresh o ho)).mpr hown'⟩
    · rintro ⟨o, ho, rfl, hrests, hown'⟩
      exact ⟨o, ho, rfl, hrests, (hown _ (h.fresh o ho)).mp hown'⟩
  known o ho hown' := h.known o ho ((hown _ (h.fresh o ho)).mp hown')
  nodup_ids := h.nodup_ids
  gone id hid := by
    rcases hgone id hid with hold | ⟨hlt, hcancelled⟩
    · obtain ⟨hlt, hcancelled⟩ := h.gone id hold
      exact ⟨hlt, fun hown' => hcancelled ((hown id hlt).mp hown')⟩
    · exact ⟨hlt, fun _ => hcancelled⟩

/-- One order changes, which was open or is not the Python engine's, and with it its entry. -/
lemma of_change (h : m.Owns symbols own gone) (horders : m.orders = as ++ o :: bs)
    (horders' : m'.orders = as ++ o' :: bs) (hopen : o.isOpen = true ∨ ¬own o.orderId)
    (hid : o'.orderId = o.orderId) (hsymbol : o'.symbolIdx = o.symbolIdx)
    (hnext : m'.nextOrderId = m.nextOrderId)
    (hothers : ∀ symbolIdx s, ∀ id ≠ o.orderId,
      id ∈ m'.ids symbolIdx s ↔ id ∈ m.ids symbolIdx s)
    (hhere : ∀ symbolIdx s, o.orderId ∈ m'.ids symbolIdx s ↔
      o'.restsIn symbolIdx s = true ∧ own o.orderId)
    (honce : ∀ symbolIdx s, (m'.ids symbolIdx s).Nodup) : m'.Owns symbols own gone where
  fresh := by
    rw [horders', hnext]
    exact replaced_fresh hid (horders ▸ h.fresh)
  nodup := by
    rw [horders', replaced_ids hid, ← horders]
    exact h.nodup
  mem_ids symbolIdx s id := by
    have hmem : ∀ a, a ∈ m'.orders ↔ a = o' ∨ a ∈ m.orders ∧ a.orderId ≠ o.orderId := by
      rw [horders, horders']
      exact fun a => mem_replaced_iff (horders ▸ h.nodup)
    rcases eq_or_ne id o.orderId with rfl | hne
    · rw [hhere]
      constructor
      · rintro ⟨hrests, hown⟩
        exact ⟨o', (hmem o').mpr (.inl rfl), hid, hrests, hown⟩
      · rintro ⟨a, ha, haid, hrests, hown⟩
        rcases (hmem a).mp ha with rfl | ⟨-, hne⟩
        · exact ⟨hrests, hown⟩
        · exact absurd haid hne
    · rw [hothers symbolIdx s id hne, h.mem_ids]
      constructor
      · rintro ⟨a, ha, rfl, hrests, hown⟩
        exact ⟨a, (hmem a).mpr (.inr ⟨ha, hne⟩), rfl, hrests, hown⟩
      · rintro ⟨a, ha, rfl, hrests, hown⟩
        rcases (hmem a).mp ha with rfl | ⟨ha, -⟩
        · exact absurd hid hne
        · exact ⟨a, ha, rfl, hrests, hown⟩
  known a ha hown := by
    rw [horders'] at ha
    rcases (mem_replaced_iff (horders ▸ h.nodup)).mp ha with rfl | ⟨ha, -⟩
    · exact hsymbol ▸ h.known o (by simp [horders]) (hid ▸ hown)
    · exact h.known a (horders ▸ ha) hown
  nodup_ids := honce
  gone id hgone := by
    obtain ⟨hlt, hcancelled⟩ := h.gone id hgone
    refine ⟨hnext ▸ hlt, fun hown a ha haid => ?_⟩
    rw [horders'] at ha
    rcases (mem_replaced_iff (horders ▸ h.nodup)).mp ha with rfl | ⟨ha, -⟩
    · obtain rfl : o.orderId = id := hid.symm.trans haid
      have ho : o.status = .cancelled := hcancelled hown o (by simp [horders]) rfl
      rcases hopen with hopen | hnot
      · simp [Order.isOpen, ho] at hopen
      · exact absurd hown hnot
    · exact hcancelled hown a (horders ▸ ha) haid

lemma mem_ids_self (h : m.Owns symbols own gone) (ho : o ∈ m.orders) :
    o.orderId ∈ m.ids symbolIdx s ↔ o.restsIn symbolIdx s = true ∧ own o.orderId := by
  rw [h.mem_ids]
  constructor
  · rintro ⟨a, ha, hid, hrests, hown⟩
    obtain rfl := h.eq_of_orderId ha ho hid
    exact ⟨hrests, hown⟩
  · rintro ⟨hrests, hown⟩
    exact ⟨o, ho, rfl, hrests, hown⟩

/-- The order that changes keeps its entry, if it has one. -/
lemma of_kept (h : m.Owns symbols own gone) (horders : m.orders = as ++ o :: bs)
    (horders' : m'.orders = as ++ o' :: bs) (hopen : o.isOpen = true ∨ ¬own o.orderId)
    (hid : o'.orderId = o.orderId) (hsymbol : o'.symbolIdx = o.symbolIdx)
    (hnext : m'.nextOrderId = m.nextOrderId)
    (hids : ∀ symbolIdx s id, id ∈ m'.ids symbolIdx s ↔ id ∈ m.ids symbolIdx s)
    (honce : ∀ symbolIdx s, (m'.ids symbolIdx s).Nodup)
    (hrests : own o.orderId → ∀ symbolIdx s, o'.restsIn symbolIdx s = o.restsIn symbolIdx s) :
    m'.Owns symbols own gone := by
  refine h.of_change horders horders' hopen hid hsymbol hnext (fun _ _ id _ => hids _ _ id) ?_ honce
  intro symbolIdx s
  rw [hids, h.mem_ids_self (by simp [horders])]
  exact and_congr_left fun hown => by rw [hrests hown]

/-- An order is written back, and the books are left alone. -/
lemma writeBack (h : m.Owns symbols own gone) {change : Order P → Option (Order P)}
    (ho : o ∈ m.orders) (hchange : change o = some o')
    (honly : ∀ a ∈ m.orders, a.orderId ≠ o.orderId → change a = none)
    (hopen : o.isOpen = true ∨ ¬own o.orderId) (hid : o'.orderId = o.orderId)
    (hsymbol : o'.symbolIdx = o.symbolIdx)
    (hrests : own o.orderId → ∀ symbolIdx s, o'.restsIn symbolIdx s = o.restsIn symbolIdx s) :
    (m.writeBack change).Owns symbols own gone := by
  obtain ⟨as, bs, horders, horders', -⟩ := writeBack_split h.nodup ho hchange honly
  exact h.of_kept horders horders' hopen hid hsymbol rfl (fun _ _ _ => Iff.rfl) h.nodup_ids hrests

/-- The order that changes is open no more, and loses its entry. -/
lemma of_removed (h : m.Owns symbols own gone) (horders : m.orders = as ++ o :: bs)
    (horders' : m'.orders = as ++ o' :: bs) (hopen : o.isOpen = true)
    (hid : o'.orderId = o.orderId) (hsymbol : o'.symbolIdx = o.symbolIdx)
    (hnext : m'.nextOrderId = m.nextOrderId)
    (hids : ∀ symbolIdx s, m'.ids symbolIdx s = (m.ids symbolIdx s).filter (· ≠ o.orderId))
    (hclosed : o'.isOpen = false) : m'.Owns symbols own gone := by
  refine h.of_change horders horders' (.inl hopen) hid hsymbol hnext ?_ ?_ ?_
  · intro symbolIdx s id hne
    simp [hids, hne]
  · intro symbolIdx s
    simp [hids, Order.restsIn, hclosed]
  · intro symbolIdx s
    rw [hids]
    exact (h.nodup_ids symbolIdx s).filter _

/-- An order that is not in the list yet. -/
lemma of_new (h : m.Owns symbols own gone) (horders : m'.orders = m.orders ++ [o])
    (hnext : m.nextOrderId ≤ m'.nextOrderId) (hid : o.orderId < m'.nextOrderId)
    (hnew : ∀ o' ∈ m.orders, o'.orderId ≠ o.orderId) (hgone : ¬gone o.orderId)
    (hknown : own o.orderId → o.symbolIdx ∈ symbols)
    (hids : ∀ symbolIdx s id, id ∈ m'.ids symbolIdx s ↔ id ∈ m.ids symbolIdx s ∨
      id = o.orderId ∧ o.restsIn symbolIdx s = true ∧ own o.orderId)
    (honce : ∀ symbolIdx s, (m'.ids symbolIdx s).Nodup) : m'.Owns symbols own gone where
  fresh := by
    rw [horders]
    intro o' ho'
    rcases List.mem_append.mp ho' with ho' | ho'
    · exact (h.fresh o' ho').trans_le hnext
    · exact List.mem_singleton.mp ho' ▸ hid
  nodup := by
    rw [horders]
    exact nodup_orderId_snoc h.nodup hnew
  mem_ids symbolIdx s id := by
    rw [hids, h.mem_ids, horders]
    constructor
    · rintro (⟨a, ha, hrest⟩ | ⟨rfl, hrest⟩)
      · exact ⟨a, List.mem_append_left _ ha, hrest⟩
      · exact ⟨o, by simp, rfl, hrest⟩
    · rintro ⟨a, ha, rfl, hrest⟩
      rcases List.mem_append.mp ha with ha | ha
      · exact .inl ⟨a, ha, rfl, hrest⟩
      · obtain rfl := List.mem_singleton.mp ha
        exact .inr ⟨rfl, hrest⟩
  known a ha hown := by
    rw [horders] at ha
    rcases List.mem_append.mp ha with ha | ha
    · exact h.known a ha hown
    · obtain rfl := List.mem_singleton.mp ha
      exact hknown hown
  nodup_ids := honce
  gone id hid' := by
    obtain ⟨hlt, hcancelled⟩ := h.gone id hid'
    refine ⟨hlt.trans_le hnext, fun hown a ha haid => ?_⟩
    rw [horders] at ha
    rcases List.mem_append.mp ha with ha | ha
    · exact hcancelled hown a ha haid
    · obtain rfl := List.mem_singleton.mp ha
      exact absurd (haid ▸ hid') hgone

end Owns

/-! ### The Python engine -/

lemma filter_ne_of_notMem {l : List ℕ} (h : id ∉ l) : l.filter (· ≠ id) = l :=
  List.filter_eq_self.mpr fun _ ha => decide_eq_true (ne_of_mem_of_not_mem ha h)

lemma filter_ne_middle {l₁ l₂ : List ℕ} (h : (l₁ ++ id :: l₂).Nodup) :
    (l₁ ++ id :: l₂).filter (· ≠ id) = l₁ ++ l₂ := by
  rw [List.nodup_middle, List.nodup_cons] at h
  rw [List.filter_append, List.filter_cons_of_neg (by simp), ← List.filter_append]
  exact filter_ne_of_notMem h.1

lemma ids_setEntries {l : List (Entry P)} :
    (m.setEntries symbolIdx s l).ids symbolIdx s = l.map Entry.orderId := by
  rw [ids, entries_setEntries]

lemma ids_setEntries_of_ne {symbolIdx' : ℕ} {t : Side} {l : List (Entry P)}
    (h : symbolIdx' ≠ symbolIdx ∨ t ≠ s) :
    (m.setEntries symbolIdx s l).ids symbolIdx' t = m.ids symbolIdx' t := by
  rw [ids, entries_setEntries_of_ne h, ids]

namespace Owns

/-- A fill writes to the entry and to the order behind it. -/
lemma fill {k : Match P} {done todo : List (Entry P)}
    (h : (k.setEntries symbolIdx s (done ++ e :: todo)).Owns symbols own gone) :
    ((k.fill e).1.setEntries symbolIdx s (done ++ ((k.fill e).2.toList ++ todo))).Owns symbols own
      gone := by
  set m := k.setEntries symbolIdx s (done ++ e :: todo) with hm
  have hids : m.ids symbolIdx s = (done ++ e :: todo).map Entry.orderId := ids_setEntries
  have hmem : e.orderId ∈ m.ids symbolIdx s := by simp [hids]
  obtain ⟨o, ho, hid, hopen, hsymbol, hside, hown⟩ := h.exists_order hmem
  set left := k.left e with hleft
  set o' : Order P := { o with
    status := if left.remainingQty = 0 then .filled else .partiallyFilled
    remainingQty := left.remainingQty } with ho'
  have hchange : left.filled o = some o' := if_pos hid
  obtain ⟨as, bs, horders, horders', -⟩ := writeBack_split (m := k.toMatchingEngine) h.nodup ho
    hchange fun a _ hne => if_neg (hid ▸ hne)
  have hfill : (k.fill e).2 = if left.remainingQty = 0 then none else some left := rfl
  have haway : ∀ symbolIdx' t l, symbolIdx' ≠ symbolIdx ∨ t ≠ s →
      ((k.fill e).1.setEntries symbolIdx s l).ids symbolIdx' t = m.ids symbolIdx' t := by
    intro symbolIdx' t l hne
    rw [ids_setEntries_of_ne hne, hm, ids_setEntries_of_ne hne]
    rfl
  by_cases hz : left.remainingQty = 0
  · rw [hfill, if_pos hz]
    refine h.of_removed horders horders' hopen rfl rfl rfl (fun symbolIdx' t => ?_) ?_
    · by_cases hhere : symbolIdx' = symbolIdx ∧ t = s
      · obtain ⟨rfl, rfl⟩ := hhere
        have hnodup := h.nodup_ids symbolIdx' t
        rw [List.map_append, List.map_cons] at hids
        rw [hids] at hnodup
        rw [ids_setEntries, hids, hid, filter_ne_middle hnodup]
        exact List.map_append
      · have hne : symbolIdx' ≠ symbolIdx ∨ t ≠ s := by tauto
        have hnot : o.orderId ∉ m.ids symbolIdx' t := h.not_mem_ids ho (hsymbol ▸ hside ▸ hne)
        rw [haway _ _ _ hne]
        exact (filter_ne_of_notMem hnot).symm
    · have hfilled : o'.status = .filled := if_pos hz
      simp [Order.isOpen, hfilled]
  · rw [hfill, if_neg hz]
    have hsame : ∀ symbolIdx' t, ((k.fill e).1.setEntries symbolIdx s
        (done ++ ((some left).toList ++ todo))).ids symbolIdx' t = m.ids symbolIdx' t := by
      intro symbolIdx' t
      by_cases hhere : symbolIdx' = symbolIdx ∧ t = s
      · obtain ⟨rfl, rfl⟩ := hhere
        rw [ids_setEntries, hids]
        simp [hleft, Match.left]
      · exact haway _ _ _ (by tauto)
    refine h.of_kept horders horders' (.inl hopen) rfl rfl rfl (fun _ _ id => by rw [hsame]) ?_ ?_
    · exact fun symbolIdx' t => hsame symbolIdx' t ▸ h.nodup_ids symbolIdx' t
    · have hpartial : o'.status = .partiallyFilled := if_neg hz
      have hopen' : o'.isOpen = true := by simp [Order.isOpen, hpartial]
      exact fun _ symbolIdx' t => by rw [Order.restsIn, Order.restsIn, hopen, hopen']

variable [LinearOrder P]

lemma matchIncoming (h : m.Owns symbols own gone) (incoming : Order P) :
    (m.matchIncoming incoming).Owns symbols own gone := by
  rw [MatchingEngine.matchIncoming]
  split
  · exact h
  · apply Sweep.sweep_invariant Match.visit (P := fun (k : Match P) l =>
      (k.setEntries incoming.symbolIdx incoming.side.opposite l).Owns symbols own gone)
    · intro k done e todo k' left hk hv
      obtain ⟨rfl, rfl⟩ := Match.fill_of_visit hv
      exact hk.fill
    · rwa [setEntries_entries]

end Owns

section

variable [LinearOrder P]

lemma perm_ids_insertResting (o : Order P) :
    ((m.insertResting o).ids o.symbolIdx o.side).Perm (o.orderId :: m.ids o.symbolIdx o.side) := by
  rw [insertResting, ids_setEntries]
  refine ((List.perm_insertionSort _ _).map _).trans ?_
  rw [List.map_append]
  exact List.perm_append_comm

lemma ids_insertResting_of_ne (h : symbolIdx ≠ o.symbolIdx ∨ s ≠ o.side) :
    (m.insertResting o).ids symbolIdx s = m.ids symbolIdx s := ids_setEntries_of_ne h

/-- An open order that is put to rest gets an entry. -/
lemma mem_ids_insertResting (hopen : o.isOpen = true) :
    id ∈ (m.insertResting o).ids symbolIdx s ↔
      id ∈ m.ids symbolIdx s ∨ id = o.orderId ∧ o.restsIn symbolIdx s = true := by
  by_cases hhere : symbolIdx = o.symbolIdx ∧ s = o.side
  · obtain ⟨rfl, rfl⟩ := hhere
    rw [(perm_ids_insertResting o).mem_iff, List.mem_cons, Order.restsIn_iff]
    tauto
  · rw [ids_insertResting_of_ne (by tauto), Order.restsIn_iff]
    tauto

lemma nodup_ids_insertResting (h : ∀ symbolIdx s, (m.ids symbolIdx s).Nodup)
    (hnew : o.orderId ∉ m.ids o.symbolIdx o.side) (symbolIdx : ℕ) (s : Side) :
    ((m.insertResting o).ids symbolIdx s).Nodup := by
  by_cases hhere : symbolIdx = o.symbolIdx ∧ s = o.side
  · obtain ⟨rfl, rfl⟩ := hhere
    rw [(perm_ids_insertResting o).nodup_iff, List.nodup_cons]
    exact ⟨hnew, h _ _⟩
  · rw [ids_insertResting_of_ne (by tauto)]
    exact h symbolIdx s

namespace Owns

lemma settle {k : Match P} (h : k.Owns symbols own gone) (hopen : 0 < k.incoming.remainingQty →
      k.incoming.status ≠ .rejected → k.incoming.isOpen = true)
    (hid : k.incoming.orderId < k.nextOrderId)
    (hnew : ∀ o ∈ k.orders, o.orderId ≠ k.incoming.orderId) (hgone : ¬gone k.incoming.orderId)
    (hown : own k.incoming.orderId) (hknown : k.incoming.symbolIdx ∈ symbols) :
    k.settle.Owns symbols own gone := by
  cases k.settles with
  | done status hk' =>
    rw [hk']
    exact h
  | rests hpos hstatus hlimit hk' =>
    rw [hk']
    refine h.of_new (o := k.incoming) rfl le_rfl hid hnew hgone (fun _ => hknown) ?_ ?_
    · intro symbolIdx s id
      refine (mem_ids_insertResting (hopen hpos hstatus)).trans ?_
      exact or_congr Iff.rfl (and_congr_right fun _ => (and_iff_left hown).symm)
    · refine nodup_ids_insertResting (fun symbolIdx s => h.nodup_ids symbolIdx s) ?_
      intro hmem
      obtain ⟨o, ho, hoid, -⟩ := h.exists_order hmem
      exact hnew o ho hoid

variable [Zero P]

/-- A new order of the Python engine. -/
lemma submitOrder (h : m.Owns symbols own gone) (hown : own m.nextOrderId)
    (hknown : symbolIdx ∈ symbols) (r : Submission P) :
    (m.submitOrder symbolIdx r).1.Owns symbols own gone := by
  set entered : MatchingEngine P := { m with nextOrderId := m.nextOrderId + 1 } with hentered
  have hm : entered.Owns symbols own gone := h.congr rfl (Nat.le_succ _) fun _ _ => rfl
  set k := entered.matchIncoming (r.order symbolIdx m.nextOrderId) with hk
  have hframe : Match.Frame ⟨entered, r.order symbolIdx m.nextOrderId, []⟩ k :=
    matchIncoming_frame _ _
  have hid : k.incoming.orderId = m.nextOrderId := orderId_matchIncoming _ _
  have hsymbol : k.incoming.symbolIdx = symbolIdx := by
    rw [hframe.incoming]
    rfl
  have hnew : ∀ o ∈ k.orders, o.orderId ≠ k.incoming.orderId := by
    rw [hid]
    exact orderId_ne_of_matchIncoming (m := entered) fun o ho => (h.fresh o ho).ne
  have hsettled := (hm.matchIncoming (r.order symbolIdx m.nextOrderId)).settle
    (fun hpos hne => hframe.isOpen hpos hne rfl)
    (by rw [hid, hframe.nextOrderId]; exact Nat.lt_succ_self _) hnew
    (fun hgone => (hid ▸ (h.gone _ hgone).1).false) (by rw [hid]; exact hown)
    (by rw [hsymbol]; exact hknown)
  exact hsettled.congr rfl le_rfl fun _ _ => rfl

omit [LinearOrder P] [Zero P] in
/-- An order loses its entry, if it has one. -/
lemma ids_removeFromBook (h : m.Owns symbols own gone) (ho : o ∈ m.orders)
    (hid : o'.orderId = o.orderId) (hsymbol : o'.symbolIdx = o.symbolIdx)
    (hside : o'.side = o.side) (symbolIdx : ℕ) (s : Side) :
    (m.removeFromBook o').ids symbolIdx s = (m.ids symbolIdx s).filter (· ≠ o.orderId) := by
  by_cases hhere : symbolIdx = o'.symbolIdx ∧ s = o'.side
  · obtain ⟨rfl, rfl⟩ := hhere
    rw [removeFromBook, ids_setEntries, hid,
      Sorted.eraseP_eq_filter (h.nodup_ids o'.symbolIdx o'.side) o.orderId, ids, List.filter_map]
    rfl
  · rw [removeFromBook, ids_setEntries_of_ne (by tauto)]
    exact (filter_ne_of_notMem (h.not_mem_ids ho (by rw [← hsymbol, ← hside]; tauto))).symm

omit [LinearOrder P] in
/-- The Python engine cancels an order of either engine. -/
lemma cancelOrder (h : m.Owns symbols own gone) {r : MatchingEngine P × Order P}
    (hr : m.cancelOrder id = some r) : r.1.Owns symbols own gone := by
  obtain ⟨o, ho, rfl, hopen, rfl⟩ := exists_of_cancelOrder hr
  obtain ⟨as, bs, horders, horders', -⟩ := cancelled_split h.nodup ho hopen
  exact h.of_removed horders horders' hopen rfl rfl rfl (h.ids_removeFromBook ho rfl rfl rfl) rfl

/-- The Python engine amends one of its orders. -/
lemma amendOrder (h : m.Owns symbols own gone) {newPrice : Option P} {newQuantity : Option ℤ}
    {r : MatchingEngine P × Order P} (hr : m.amendOrder id newPrice newQuantity = some r)
    (hown : own id) : r.1.Owns symbols own gone := by
  obtain ⟨o, ho, rfl, hopen, rfl⟩ := exists_of_amendOrder hr
  set o' := o.amend newPrice newQuantity with ho'
  obtain ⟨as, bs, horders, horders', -⟩ :=
    amended_split h.nodup ho hopen newPrice newQuantity
  set removed := (m.writeBack (amended o.orderId newPrice newQuantity)).removeFromBook o'
    with hremoved
  have hids : ∀ symbolIdx s, removed.ids symbolIdx s
      = (m.ids symbolIdx s).filter (· ≠ o.orderId) := h.ids_removeFromBook ho rfl rfl rfl
  refine h.of_kept horders horders' (.inl hopen) rfl rfl rfl (fun symbolIdx s id => ?_) ?_
    fun _ _ _ => rfl
  · refine (mem_ids_insertResting (m := removed) (o := o') hopen).trans ?_
    rw [hids, List.mem_filter, decide_eq_true_eq]
    have hself : o.orderId ∈ m.ids symbolIdx s ↔ o.restsIn symbolIdx s = true ∧ own o.orderId :=
      h.mem_ids_self ho
    constructor
    · rintro (⟨hmem, -⟩ | ⟨rfl, hrests⟩)
      · exact hmem
      · exact hself.mpr ⟨hrests, hown⟩
    · intro hmem
      rcases eq_or_ne id o.orderId with rfl | hne
      · exact .inr ⟨rfl, (hself.mp hmem).1⟩
      · exact .inl ⟨hmem, hne⟩
  · refine nodup_ids_insertResting (m := removed) (fun symbolIdx s => ?_) ?_
    · rw [hids]
      exact (h.nodup_ids symbolIdx s).filter _
    · rw [hids]
      simp [ho', Order.amend]

end Owns

end

/-! ### Requests -/

section

/-- A fill makes a trade of the incoming order and the entry. -/
lemma exists_trade_fill (k : Match P) (e : Entry P) : ∃ t, (k.fill e).1.trades = k.trades ++ [t] ∧
    ∀ p : ℕ → Prop, p k.incoming.orderId → p e.orderId → t.Between p := by
  refine ⟨k.trade e, rfl, fun p hincoming he => ?_⟩
  cases hside : k.incoming.side with
  | buy => simpa [Trade.Between, Match.trade, hside] using ⟨hincoming, he⟩
  | sell => simpa [Trade.Between, Match.trade, hside] using ⟨he, hincoming⟩

variable [LinearOrder P]

/-- The parties of a trade are the incoming order and an order that has an entry. -/
lemma exists_trades_sweep (k : Match P) (l : List (Entry P)) :
    ∃ ts, (Sweep.sweep Match.visit k l).1.trades = k.trades ++ ts ∧ ∀ t ∈ ts,
      t.Between fun id => id = k.incoming.orderId ∨ id ∈ l.map Entry.orderId := by
  refine (Sweep.sweep_forall (I := fun k' : Match P => k'.incoming.orderId = k.incoming.orderId ∧
    ∃ ts, k'.trades = k.trades ++ ts ∧ ∀ t ∈ ts,
      t.Between fun id => id = k.incoming.orderId ∨ id ∈ l.map Entry.orderId)
    (Q := fun e : Entry P => e.orderId ∈ l.map Entry.orderId) ?_ ⟨rfl, [], by simp⟩
    fun e he => List.mem_map_of_mem he).1.2
  rintro k' e k'' left ⟨hid, ts, htrades, hts⟩ he hv
  obtain ⟨rfl, rfl⟩ := Match.fill_of_visit hv
  obtain ⟨t, ht, hbetween⟩ := exists_trade_fill k' e
  refine ⟨⟨hid, ts ++ [t], by rw [ht, htrades, List.append_assoc], ?_⟩,
    fun e' he' => (Match.fill_left he').2.1 ▸ he⟩
  intro t' ht'
  rcases List.mem_append.mp ht' with ht' | ht'
  · exact hts t' ht'
  · obtain rfl := List.mem_singleton.mp ht'
    exact hbetween _ (.inl hid) (.inr he)

lemma exists_trades_matchIncoming (incoming : Order P) :
    ∃ ts, (m.matchIncoming incoming).trades = m.trades ++ ts ∧ ∀ t ∈ ts, t.Between fun id =>
      id = incoming.orderId ∨ ∃ symbolIdx s, id ∈ m.ids symbolIdx s := by
  rw [MatchingEngine.matchIncoming]
  split
  · exact ⟨[], by simp⟩
  · obtain ⟨ts, htrades, hts⟩ := exists_trades_sweep ⟨m, incoming, []⟩
      (m.entries incoming.symbolIdx incoming.side.opposite)
    exact ⟨ts, htrades, fun t ht => (hts t ht).imp fun id hid => hid.imp_right fun hmem =>
      ⟨_, _, hmem⟩⟩

end

/-- What a step leaves behind, with the order that it returns. -/
structure Follows (symbols : List ℕ) (own gone : ℕ → Prop) (m : MatchingEngine P)
    (r : MatchingEngine P × Option (Order P)) : Prop where
  owns : r.1.Owns symbols own gone
  next : m.nextOrderId ≤ r.1.nextOrderId
  returned : ∀ o ∈ r.2, o.orderId < r.1.nextOrderId ∧
    (o ∈ r.1.orders ∨ ∀ o' ∈ r.1.orders, o'.orderId ≠ o.orderId)

/-- What a request to either engine leaves behind. -/
structure Served (symbols : List ℕ) (own gone : ℕ → Prop) (m : MatchingEngine P)
    (r : MatchingEngine P × Option (Order P)) : Prop extends Follows symbols own gone m r where
  trades : ∃ ts, r.1.trades = m.trades ++ ts ∧ ∀ t ∈ ts, t.Between fun id =>
    id = m.nextOrderId ∨ ∃ symbolIdx s, id ∈ m.ids symbolIdx s

lemma Follows.of_none (h : m'.Owns symbols own gone) (hnext : m.nextOrderId ≤ m'.nextOrderId) :
    m.Follows symbols own gone (m', none) where
  owns := h
  next := hnext
  returned o ho := by cases ho

namespace Served

/-- The request returns no order and makes no trade. -/
lemma of_none (h : m'.Owns symbols own gone) (hnext : m.nextOrderId ≤ m'.nextOrderId)
    (htrades : m'.trades = m.trades) : m.Served symbols own gone (m', none) where
  toFollows := .of_none h hnext
  trades := ⟨[], by simp [htrades]⟩

/-- The request returns an order of the list and makes no trade. -/
lemma of_mem (h : m'.Owns symbols own gone) (hnext : m.nextOrderId ≤ m'.nextOrderId)
    (ho : o ∈ m'.orders) (htrades : m'.trades = m.trades) :
    m.Served symbols own gone (m', some o) where
  owns := h
  next := hnext
  returned o' ho' := by
    cases ho'
    exact ⟨h.fresh o ho, .inl ho⟩
  trades := ⟨[], by simp [htrades]⟩

variable [LinearOrder P] [Zero P]

lemma submitOrder (h : m.Owns symbols own gone) (hown : own m.nextOrderId)
    (hknown : symbolIdx ∈ symbols) (r : Submission P) :
    m.Served symbols own gone
      ((m.submitOrder symbolIdx r).1, some (m.submitOrder symbolIdx r).2) where
  owns := h.submitOrder hown hknown r
  next := (submitOrder_frame m symbolIdx r).1 ▸ Nat.le_succ _
  returned o ho := by
    cases ho
    set entered : MatchingEngine P := { m with nextOrderId := m.nextOrderId + 1 } with hentered
    set k := entered.matchIncoming (r.order symbolIdx m.nextOrderId) with hk
    have hframe : Match.Frame ⟨entered, r.order symbolIdx m.nextOrderId, []⟩ k :=
      matchIncoming_frame _ _
    have hid : k.incoming.orderId = m.nextOrderId := orderId_matchIncoming _ _
    have hnew : ∀ o ∈ k.orders, o.orderId ≠ k.incoming.orderId := by
      rw [hid]
      exact orderId_ne_of_matchIncoming (m := entered) fun o ho => (h.fresh o ho).ne
    have hlt : k.incoming.orderId < k.nextOrderId := by
      rw [hid, hframe.nextOrderId]
      exact Nat.lt_succ_self _
    show k.settle.incoming.orderId < k.settle.nextOrderId ∧ (k.settle.incoming ∈ k.settle.orders ∨
      ∀ o' ∈ k.settle.orders, o'.orderId ≠ k.settle.incoming.orderId)
    cases k.settles with
    | done status hk' =>
      rw [hk']
      exact ⟨hlt, .inr hnew⟩
    | rests hpos hstatus hlimit hk' =>
      rw [hk']
      exact ⟨hlt, .inl (List.mem_append_right _ (List.mem_singleton_self _))⟩
  trades := by
    set entered : MatchingEngine P := { m with nextOrderId := m.nextOrderId + 1 } with hentered
    set k := entered.matchIncoming (r.order symbolIdx m.nextOrderId) with hk
    obtain ⟨ts, htrades, hts⟩ := exists_trades_matchIncoming (m := entered)
      (r.order symbolIdx m.nextOrderId)
    exact ⟨ts, k.settle_frame.trades.trans htrades, hts⟩

omit [LinearOrder P] [Zero P] in
lemma mem_of_find (h : (m.orders.find? fun o => o.orderId = id ∧ o.isOpen = true) = some o) :
    o ∈ m.orders ∧ o.orderId = id ∧ o.isOpen = true :=
  ⟨List.mem_of_find?_eq_some h, by simpa using List.find?_some h⟩

omit [LinearOrder P] [Zero P] in
/-- What the loops of a cancel and an amend find is in the list afterwards. -/
lemma mem_writeBack {change : Order P → Option (Order P)}
    (h : m.orders.findSome? change = some o') : o' ∈ (m.writeBack change).orders := by
  obtain ⟨o, ho, hchange⟩ := List.exists_of_findSome?_eq_some h
  obtain ⟨a, a', as, bs, has, ha, hsplit, hreplace⟩ := List.exists_of_replaceF ho hchange
  have hfind : m.orders.findSome? change = some a' := by
    rw [hsplit, List.findSome?_append, List.findSome?_eq_none_iff.mpr has]
    simp [ha]
  obtain rfl := Option.some.inj (h.symm.trans hfind)
  show o' ∈ m.orders.replaceF change
  rw [hreplace]
  exact List.mem_append_right _ List.mem_cons_self

lemma handle_cancel (h : m.Owns symbols own gone) (id : ℕ) :
    m.Served symbols own gone (m.handle symbols (.cancel id)) := by
  rw [MatchingEngine.handle]
  cases hr : m.cancelOrder id with
  | none => exact of_none h le_rfl rfl
  | some r =>
    have howns := h.cancelOrder hr
    obtain ⟨o, ho, rfl⟩ := Option.map_eq_some_iff.mp hr
    exact of_mem howns le_rfl (mem_writeBack ho) rfl

lemma handle_amend (h : m.Owns symbols own gone) (id : ℕ) (newPrice : Option P)
    (newQuantity : Option ℤ) (hown : ∀ o ∈ m.orders, o.orderId = id → o.isOpen = true → own id) :
    m.Served symbols own gone (m.handle symbols (.amend id newPrice newQuantity)) := by
  rw [MatchingEngine.handle]
  cases hr : m.amendOrder id newPrice newQuantity with
  | none => exact of_none h le_rfl rfl
  | some r =>
    obtain ⟨o, ho, hid, hopen, -⟩ := exists_of_amendOrder hr
    have howns := h.amendOrder hr (hown o ho hid hopen)
    obtain ⟨o', ho', rfl⟩ := Option.map_eq_some_iff.mp hr
    exact of_mem howns le_rfl (mem_writeBack ho') rfl

/-- A request to the Python engine. -/
lemma handleShared (h : m.Owns symbols own gone) (hnext : own m.nextOrderId) (request : Request P)
    (hown : ∀ id newPrice newQuantity, request = .amend id newPrice newQuantity →
      ∀ o ∈ m.orders, o.orderId = id → o.isOpen = true → o.symbolIdx ∈ symbols → own id) :
    m.Served symbols own gone (m.handleShared symbols request) := by
  cases request with
  | submit symbolIdx r =>
    rw [handleShared_of_none rfl, MatchingEngine.handle]
    split
    · rename_i hknown
      exact submitOrder h hnext hknown r
    · exact of_none (h.congr rfl (Nat.le_succ _) fun _ _ => rfl) (Nat.le_succ _) rfl
  | cancel id =>
    cases htarget : m.target (.cancel id) with
    | none =>
      rw [handleShared_of_none htarget]
      exact handle_cancel h id
    | some o =>
      by_cases hknown : o.symbolIdx ∈ symbols
      · rw [handleShared_of_known htarget hknown]
        exact handle_cancel h id
      · obtain ⟨ho, rfl, hopen⟩ := mem_of_find htarget
        have hnot : ¬own o.orderId := fun hown' => hknown (h.known o ho hown')
        have hchange : cancelled o.orderId o = some { o with status := .cancelled } :=
          if_pos ⟨rfl, hopen⟩
        have howns : (m.writeBack (cancelled o.orderId)).Owns symbols own gone :=
          h.writeBack ho hchange (fun a _ hne => if_neg fun heq => hne heq.1) (.inr hnot) rfl rfl
            fun hown' => absurd hown' hnot
        rw [handleShared_cancel htarget hknown]
        exact of_none (howns.congr rfl le_rfl fun _ _ => rfl) le_rfl rfl
  | amend id newPrice newQuantity =>
    cases htarget : m.target (.amend id newPrice newQuantity) with
    | none =>
      rw [handleShared_of_none htarget]
      refine handle_amend h id newPrice newQuantity fun o ho hid hopen => ?_
      exact absurd (decide_eq_true ⟨hid, hopen⟩) (List.find?_eq_none.mp htarget o ho)
    | some o =>
      obtain ⟨ho, rfl, hopen⟩ := mem_of_find htarget
      by_cases hknown : o.symbolIdx ∈ symbols
      · rw [handleShared_of_known htarget hknown]
        exact handle_amend h o.orderId newPrice newQuantity fun _ _ _ _ =>
          hown _ _ _ rfl o ho rfl hopen hknown
      · rw [handleShared_amend htarget hknown]
        exact of_none h le_rfl rfl

end Served

end

end MatchingEngine

namespace CppEngineBridge

open MatchingEngine

variable {a : App P} {symbols : List ℕ} {own gone : ℕ → Prop} {id : ℕ}

/-- A new order of the bridge. -/
lemma served_submitOrder (h : a.Owns symbols own gone) (hown : ¬own a.nextOrderId) (symbolIdx : ℕ)
    (r : Submission P) : a.Served symbols own gone
      ((submitOrder a symbolIdx r).1.toMatchingEngine, some (submitOrder a symbolIdx r).2) := by
  refine .of_mem ?_ (Nat.le_succ _) (List.mem_append_right _ (List.mem_singleton_self _)) rfl
  refine h.of_new (o := (submitOrder a symbolIdx r).2) rfl (Nat.le_succ _) (Nat.lt_succ_self _)
    (fun o ho => (h.fresh o ho).ne) (fun hgone => ((h.gone _ hgone).1).false)
    (fun hown' => absurd hown' hown) (fun symbolIdx s id => ?_) h.nodup_ids
  exact (or_iff_left fun hrests => hown hrests.2.2).symm

/-- The bridge cancels one of its orders. -/
lemma served_cancelOrder (h : a.Owns symbols own gone) {r : App P × Order P}
    (hr : cancelOrder a id = some r)
    (hown : ∀ o ∈ a.orders, o.orderId = id → o.isOpen = true → ¬own id) :
    a.Served symbols own gone (r.1.toMatchingEngine, some r.2) := by
  obtain ⟨o', ho', rfl⟩ := Option.map_eq_some_iff.mp hr
  obtain ⟨o, ho, rfl, hopen, rfl⟩ := exists_of_changeOpen ho'
  have hnot := hown o ho rfl hopen
  refine .of_mem ?_ le_rfl (Served.mem_writeBack ho') rfl
  exact h.writeBack ho (if_pos ⟨rfl, hopen⟩) (fun a _ hne => if_neg fun heq => hne heq.1)
    (.inr hnot) rfl rfl fun hown' => absurd hown' hnot

/-- The bridge amends an order of either engine. -/
lemma served_amendOrder (h : a.Owns symbols own gone) {newPrice : Option P}
    {newQuantity : Option ℤ} {r : App P × Order P}
    (hr : amendOrder a id newPrice newQuantity = some r) :
    a.Served symbols own gone (r.1.toMatchingEngine, some r.2) := by
  obtain ⟨o', ho', rfl⟩ := Option.map_eq_some_iff.mp hr
  obtain ⟨o, ho, rfl, hopen, rfl⟩ := exists_of_changeOpen ho'
  refine .of_mem ?_ le_rfl (Served.mem_writeBack ho') rfl
  exact h.writeBack ho (if_pos ⟨rfl, hopen⟩) (fun a _ hne => if_neg fun heq => hne heq.1)
    (.inl hopen) rfl rfl fun _ _ _ => rfl

/-- A request to the bridge. -/
lemma served_handle (h : a.Owns symbols own gone) (request : Request P)
    (hsubmit : ∀ symbolIdx r, request = .submit symbolIdx r → ¬own a.nextOrderId)
    (hcancel : ∀ id, request = .cancel id →
      ∀ o ∈ a.orders, o.orderId = id → o.isOpen = true → ¬own id) :
    a.Served symbols own gone ((handle a request).1.toMatchingEngine, (handle a request).2) := by
  cases request with
  | submit symbolIdx r => exact served_submitOrder h (hsubmit symbolIdx r rfl) symbolIdx r
  | cancel id =>
    rw [handle]
    cases hr : cancelOrder a id with
    | none => exact .of_none h le_rfl rfl
    | some r => exact served_cancelOrder h hr (hcancel id rfl)
  | amend id newPrice newQuantity =>
    rw [handle]
    cases hr : amendOrder a id newPrice newQuantity with
    | none => exact .of_none h le_rfl rfl
    | some r => exact served_amendOrder h hr

variable [Zero P]

/-- A report on an order of the bridge. -/
lemma owns_handleExecReport (h : a.Owns symbols own gone) (r : ExecReport P)
    (hpending : ∀ id, a.pending r.clOrdId = some id → ¬own id) :
    (handleExecReport a symbols r).Owns symbols own gone := by
  cases hid : a.pending r.clOrdId with
  | none => rwa [handleExecReport_of_none symbols hid]
  | some id =>
    obtain ⟨horders, hbooks, hnext, -⟩ := handleExecReport_frame symbols hid
    have howns : (a.writeBack (r.applied id)).Owns symbols own gone := by
      by_cases hlisted : ∃ o ∈ a.orders, o.orderId = id
      · obtain ⟨o, ho, rfl⟩ := hlisted
        have hnot := hpending _ hid
        exact h.writeBack ho (if_pos rfl) (fun a _ hne => if_neg hne) (.inr hnot) rfl rfl
          fun hown => absurd hown hnot
      · refine h.congr (List.replaceF_of_forall_none fun o ho => if_neg ?_) le_rfl fun _ _ => rfl
        exact fun heq => hlisted ⟨o, ho, heq⟩
    refine howns.congr horders hnext.ge fun symbolIdx s => ?_
    rw [ids, entries, hbooks]
    rfl

end CppEngineBridge

end EuNEx.Dashboard
