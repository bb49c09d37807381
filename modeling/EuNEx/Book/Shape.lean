import EuNEx.Book.Matching
import EuNEx.Book.Run

/-!
# The shape of a book

The part of the representation invariant that concerns the containers: both level maps have their
shape, the index fits them, and only stop orders are parked. Every change that an operation makes
to the containers is one of four: a fill loop, a new resting order, a removal, a parked stop.
-/

namespace EuNEx.Book

/-- The containers of a book fit together. -/
structure Shape (b : Book) : Prop where
  levels : ∀ s, (b.levels s).OK
  indexed : Indexed b.orderIndex (↑(b.resting .buy) + ↑(b.resting .sell))
  parked : ∀ o ∈ b.stopOrders, o.ordType.isStop = true
  arrival : b.stopOrders.Pairwise fun o o' => o.orderId < o'.orderId

/-- The orders a book answers for. -/
def live (b : Book) : Multiset Order :=
  ↑(b.resting .buy) + ↑(b.resting .sell) + ↑b.stopOrders

/-- The ledger that a book keeps, given the history of its events. -/
def ledger (b : Book) (hist : List BookEvent) : Ledger :=
  ⟨b.live, b.nextOrderId, b.nextTradeId, b.lastTradePrice, hist⟩

variable {b b' : Book} {s : Side} {o : Order}

lemma sides_eq (b : Book) (s : Side) :
    (↑(b.resting .buy) + ↑(b.resting .sell) : Multiset Order)
      = ↑(b.resting s) + ↑(b.resting s.opposite) := by
  cases s with
  | buy => rfl
  | sell => exact add_comm _ _

lemma live_eq (b : Book) (s : Side) :
    b.live = ↑(b.resting s) + (↑(b.resting s.opposite) + ↑b.stopOrders) := by
  rw [live, sides_eq b s, add_assoc]

lemma mem_live : o ∈ b.live ↔ (∃ s, o ∈ b.resting s) ∨ o ∈ b.stopOrders := by
  simp only [live, Multiset.mem_add, Multiset.mem_coe]
  constructor
  · rintro ((h | h) | h)
    · exact Or.inl ⟨_, h⟩
    · exact Or.inl ⟨_, h⟩
    · exact Or.inr h
  · rintro (⟨s, h⟩ | h)
    · cases s with
      | buy => exact Or.inl (Or.inl h)
      | sell => exact Or.inl (Or.inr h)
    · exact Or.inr h

lemma forall_sides {P : Side → Prop} : (∀ s, P s) ↔ P s ∧ P s.opposite := by
  constructor
  · intro h
    exact ⟨h _, h _⟩
  · rintro ⟨h, h'⟩ t
    cases s <;> cases t <;> assumption

namespace Shape

lemma new (symbolIdx : ℕ) : (Book.new symbolIdx).Shape where
  levels s := by cases s <;> exact Levels.ok_empty
  indexed := Indexed.empty
  parked := by simp [Book.new]
  arrival := List.Pairwise.nil

lemma indexed_side (h : b.Shape) (s : Side) :
    Indexed b.orderIndex (↑(b.resting s) + ↑(b.resting s.opposite)) :=
  sides_eq b s ▸ h.indexed

lemma side (h : b.Shape) (ho : o ∈ b.resting s) : o.side = s := (h.levels s).side ho

lemma executable (h : b.Shape) (ho : o ∈ b.resting s) : o.ordType.isStop = false :=
  (h.levels s).executable ho

/-- Only levels, index and parked stops matter. -/
lemma congr (h : b.Shape) (hlevels : ∀ s, b'.levels s = b.levels s)
    (hindex : b'.orderIndex = b.orderIndex) (hstops : b'.stopOrders = b.stopOrders) : b'.Shape where
  levels s := hlevels s ▸ h.levels s
  indexed := by simpa only [resting, hlevels, hindex] using h.indexed
  parked := hstops ▸ h.parked
  arrival := hstops ▸ h.arrival

/-- A change of the levels of one side, with a matching change of the index. -/
lemma of_side (h : b.Shape) {levels : Levels s} (hOK : levels.OK)
    (hlevels : b'.levels s = levels) (hopposite : b'.levels s.opposite = b.levels s.opposite)
    (hindex : Indexed b'.orderIndex (↑levels.elems + ↑(b.resting s.opposite)))
    (hstops : b'.stopOrders = b.stopOrders) : b'.Shape where
  levels := (forall_sides (s := s)).mpr ⟨hlevels ▸ hOK, hopposite ▸ h.levels _⟩
  indexed := by
    rw [sides_eq b' s]
    simpa only [resting, hlevels, hopposite] using hindex
  parked := hstops ▸ h.parked
  arrival := hstops ▸ h.arrival

end Shape

/-! ### New resting orders -/

/-- New levels on one side, and a new index. -/
def withSide (b : Book) (s : Side) (levels : Levels s) (index : OrderIndex) : Book :=
  { b.setLevels s levels with orderIndex := index }

section

variable {levels : Levels s} {index : OrderIndex}

@[simp] lemma levels_withSide : (b.withSide s levels index).levels s = levels := by cases s <;> rfl

@[simp] lemma levels_withSide_opposite :
    (b.withSide s levels index).levels s.opposite = b.levels s.opposite := by cases s <;> rfl

@[simp] lemma resting_withSide : (b.withSide s levels index).resting s = levels.elems := by
  simp [resting]

@[simp] lemma resting_withSide_opposite :
    (b.withSide s levels index).resting s.opposite = b.resting s.opposite := by simp [resting]

@[simp] lemma withSide_symbolIdx : (b.withSide s levels index).symbolIdx = b.symbolIdx := by
  simp [withSide]

@[simp] lemma withSide_nextTradeId : (b.withSide s levels index).nextTradeId = b.nextTradeId := by
  simp [withSide]

@[simp] lemma withSide_nextOrderId : (b.withSide s levels index).nextOrderId = b.nextOrderId := by
  simp [withSide]

@[simp] lemma withSide_lastTradePrice :
    (b.withSide s levels index).lastTradePrice = b.lastTradePrice := by simp [withSide]

@[simp] lemma withSide_phase : (b.withSide s levels index).phase = b.phase := by simp [withSide]

@[simp] lemma withSide_orderIndex : (b.withSide s levels index).orderIndex = index := rfl

@[simp] lemma withSide_stopOrders : (b.withSide s levels index).stopOrders = b.stopOrders := by
  simp [withSide]

end

lemma insertResting_eq (b : Book) (o : Order) : b.insertResting o
    = b.withSide o.side ((b.levels o.side).upsert o.price fun level => level.getD [] ++ [o])
        (b.orderIndex.insert o.orderId (o.side, o.price)) := rfl

@[simp] lemma insertResting_symbolIdx : (b.insertResting o).symbolIdx = b.symbolIdx := by
  simp [insertResting_eq]

@[simp] lemma insertResting_nextTradeId : (b.insertResting o).nextTradeId = b.nextTradeId := by
  simp [insertResting_eq]

@[simp] lemma insertResting_nextOrderId : (b.insertResting o).nextOrderId = b.nextOrderId := by
  simp [insertResting_eq]

@[simp] lemma insertResting_lastTradePrice :
    (b.insertResting o).lastTradePrice = b.lastTradePrice := by simp [insertResting_eq]

@[simp] lemma insertResting_phase : (b.insertResting o).phase = b.phase := by
  simp [insertResting_eq]

@[simp] lemma insertResting_stopOrders : (b.insertResting o).stopOrders = b.stopOrders := by
  simp [insertResting_eq]

lemma resting_insertResting_perm (b : Book) (o : Order) :
    ((b.insertResting o).resting o.side).Perm (o :: b.resting o.side) := by
  rw [insertResting_eq, resting_withSide]
  exact Levels.elems_upsert_perm _ _ _

lemma resting_insertResting_opposite (b : Book) (o : Order) :
    (b.insertResting o).resting o.side.opposite = b.resting o.side.opposite := by
  rw [insertResting_eq, resting_withSide_opposite]

lemma mem_resting_insertResting {o' : Order} :
    o' ∈ (b.insertResting o).resting s ↔ o' ∈ b.resting s ∨ (o' = o ∧ o.side = s) := by
  rcases eq_or_ne o.side s with rfl | hne
  · rw [(resting_insertResting_perm b o).mem_iff, List.mem_cons]
    tauto
  · have hs : s = o.side.opposite := by
      cases h : o.side <;> cases s <;> simp_all
    subst hs
    rw [resting_insertResting_opposite]
    simp [hne]

lemma live_insertResting (b : Book) (o : Order) : (b.insertResting o).live = o ::ₘ b.live := by
  rw [live_eq _ o.side, live_eq b o.side, resting_insertResting_opposite, insertResting_stopOrders,
    Multiset.coe_eq_coe.mpr (resting_insertResting_perm b o), ← Multiset.cons_coe,
    Multiset.cons_add]

/-- A newer order can be put to rest. -/
lemma Shape.insertResting (h : b.Shape) (hexec : o.ordType.isStop = false)
    (hnew : ∀ o' ∈ b.live, o'.orderId < o.orderId) : (b.insertResting o).Shape := by
  have hlt : ∀ s, ∀ o' ∈ b.resting s, o'.orderId < o.orderId :=
    fun s o' ho' => hnew o' (mem_live.mpr (Or.inl ⟨s, ho'⟩))
  refine h.of_side ((h.levels o.side).upsert rfl hexec (hlt o.side)) levels_withSide
    levels_withSide_opposite ?_ insertResting_stopOrders
  have hindexed := (h.indexed_side o.side).insert (o := o) fun o' ho' => by
    rcases Multiset.mem_add.mp ho' with ho' | ho'
    · exact (hlt _ o' (Multiset.mem_coe.mp ho')).ne
    · exact (hlt _ o' (Multiset.mem_coe.mp ho')).ne
  rw [← Multiset.cons_add, Multiset.cons_coe] at hindexed
  rw [Multiset.coe_eq_coe.mpr (Levels.elems_upsert_perm (b.levels o.side) o.price o)]
  exact hindexed

/-! ### Removals -/

/-- A removal takes a parked stop, or a resting order together with its index entry. -/
inductive Removes (b : Book) (id : ℕ) : Cancel → Prop
  | stop (o : Order) (stops : List Order) (hid : o.orderId = id) (hmem : o ∈ b.stopOrders)
      (hperm : b.stopOrders.Perm (o :: stops)) (hsub : stops.Sublist b.stopOrders) :
    Removes b id ⟨{ b with stopOrders := stops }, ⟨id, o.clOrdId, .cancelled, 0, 0, 0, 0, 0⟩, o⟩
  | resting (s : Side) (o : Order) (levels : Levels s) (hid : o.orderId = id)
      (hperm : (b.resting s).Perm (o :: levels.elems)) (hOK : levels.OK) :
    Removes b id ⟨b.withSide s levels (b.orderIndex.erase id),
      ⟨id, o.clOrdId, .cancelled, o.quantity - o.remainingQty, 0, 0, 0, 0⟩, o⟩

lemma removes_of_cancelStopOrder {id : ℕ} {c : Cancel} (hc : b.cancelStopOrder id = some c) :
    b.Removes id c := by
  obtain ⟨o, ho, rfl⟩ := Option.map_eq_some_iff.mp hc
  obtain ⟨hid, xs, ys, hsplit, hxs⟩ := List.find?_eq_some_iff_append.mp ho
  have hid : o.orderId = id := by simpa using hid
  refine .stop o _ hid (List.mem_of_find?_eq_some ho) ?_ List.eraseP_sublist
  have herase : ((xs ++ o :: ys).eraseP fun o => o.orderId = id) = xs ++ ys := by
    rw [List.eraseP_append_right _ fun x hx => by simpa using hxs x hx]
    simp [hid]
  rw [hsplit, herase]
  exact List.perm_middle

lemma removes_of_cancelResting (h : b.Shape) {id : ℕ} {price : ℤ} {c : Cancel}
    (hc : b.cancelResting id s price = some c) : b.Removes id c := by
  rw [cancelResting] at hc
  split at hc
  · cases hc
  · rename_i vec hvec
    obtain ⟨o, ho, rfl⟩ := Option.map_eq_some_iff.mp hc
    exact .resting s o _ (by simpa using List.find?_some ho) (Levels.elems_eraseOrder_perm hvec ho)
      ((h.levels s).eraseOrder hvec)

/-- What `cancelOrder` does where it succeeds. -/
theorem removes_of_cancelOrder (h : b.Shape) {id : ℕ} {c : Cancel}
    (hc : b.cancelOrder id = some c) : b.Removes id c := by
  rw [cancelOrder] at hc
  split at hc
  · rename_i c' hstop
    cases hc
    exact removes_of_cancelStopOrder hstop
  · split at hc
    · cases hc
    · exact removes_of_cancelResting h hc

/-- `cancelOrder` finds every order that the book answers for. -/
theorem exists_cancelOrder (h : b.Shape) (ho : o ∈ b.live) :
    ∃ c, b.cancelOrder o.orderId = some c := by
  rw [cancelOrder]
  split
  · exact ⟨_, rfl⟩
  · rename_i hstop
    rcases mem_live.mp ho with ⟨s, ho⟩ | ho
    · have hmem : o ∈ (↑(b.resting s) + ↑(b.resting s.opposite) : Multiset Order) := by simp [ho]
      rw [((h.indexed_side s).lookup o.orderId o.side o.price).mpr ⟨o, hmem, rfl, rfl, rfl⟩]
      obtain rfl := h.side ho
      obtain ⟨⟨price, vec⟩, hlevel, hvec⟩ := OrdMap.mem_elems.mp ho
      have hprice : o.price = price := (h.levels _ _ hlevel).price o hvec
      simp only [cancelResting, hprice, OrdMap.find?_of_mem hlevel]
      cases hfind : vec.find? fun o' => o'.orderId = o.orderId with
      | none => simpa using List.find?_eq_none.mp hfind o hvec
      | some o' => exact ⟨_, rfl⟩
    · have hnone := List.find?_eq_none.mp (Option.map_eq_none_iff.mp hstop) o ho
      simp at hnone

namespace Removes

variable {id : ℕ} {c : Cancel}

lemma orderId (h : b.Removes id c) : c.removed.orderId = id := by
  cases h with
  | stop o stops hid hmem hperm hsub => exact hid
  | resting s o levels hid hperm hOK => exact hid

lemma live (h : b.Removes id c) : b.live = c.removed ::ₘ c.book.live := by
  cases h with
  | stop o stops hid hmem hperm hsub =>
    rw [Book.live, Multiset.coe_eq_coe.mpr hperm, ← Multiset.cons_coe, Multiset.add_cons]
    rfl
  | resting s o levels hid hperm hOK =>
    rw [live_eq b s, live_eq _ s, Multiset.coe_eq_coe.mpr hperm, ← Multiset.cons_coe,
      Multiset.cons_add]
    simp

lemma mem_live (h : b.Removes id c) : c.removed ∈ b.live := by simp [h.live]

lemma shape (h : b.Removes id c) (hb : b.Shape) : c.book.Shape := by
  cases h with
  | stop o stops hid hmem hperm hsub =>
    exact ⟨fun s => by cases s <;> exact hb.levels _, hb.indexed,
      fun o' ho' => hb.parked o' (hsub.subset ho'), hb.arrival.sublist hsub⟩
  | resting s o levels hid hperm hOK =>
    refine hb.of_side hOK (by simp) (by simp) ?_ (by simp)
    have hindexed := hb.indexed_side s
    rw [Multiset.coe_eq_coe.mpr hperm, ← Multiset.cons_coe, Multiset.cons_add] at hindexed
    simpa [hid] using hindexed.erase

lemma symbolIdx (h : b.Removes id c) : c.book.symbolIdx = b.symbolIdx := by cases h <;> simp

lemma clOrdId (h : b.Removes id c) : c.report.clOrdId = c.removed.clOrdId := by cases h <;> rfl

lemma nextOrderId (h : b.Removes id c) : c.book.nextOrderId = b.nextOrderId := by cases h <;> simp

lemma nextTradeId (h : b.Removes id c) : c.book.nextTradeId = b.nextTradeId := by cases h <;> simp

lemma lastTradePrice (h : b.Removes id c) : c.book.lastTradePrice = b.lastTradePrice := by
  cases h <;> simp

lemma phase (h : b.Removes id c) : c.book.phase = b.phase := by cases h <;> simp

/-- A removal leaves of the resting orders those that it does not remove. -/
lemma resting_subset (h : b.Removes id c) (s : Side) :
    ∀ o ∈ c.book.resting s, o ∈ b.resting s := by
  cases h with
  | stop o stops hid hmem hperm hsub => cases s <;> exact fun _ h => h
  | resting t o levels hid hperm hOK =>
    refine (forall_sides (s := t)
      (P := fun s => ∀ o' ∈ (Cancel.book _).resting s, o' ∈ b.resting s)).mpr ⟨?_, ?_⟩ s
    · intro o' ho'
      exact hperm.mem_iff.mpr (List.mem_cons_of_mem _ (by simpa using ho'))
    · intro o' ho'
      simpa using ho'

lemma stopOrders_subset (h : b.Removes id c) : ∀ stop ∈ c.book.stopOrders, stop ∈ b.stopOrders := by
  cases h with
  | stop o stops hid hmem hperm hsub => exact fun stop hstop => hsub.subset hstop
  | resting s o levels hid hperm hOK =>
    intro stop hstop
    simpa using hstop

end Removes

/-- `cancelOrder` fails exactly on the ids that the book does not answer for. -/
theorem cancelOrder_eq_none_iff (h : b.Shape) {id : ℕ} :
    b.cancelOrder id = none ↔ ∀ o ∈ b.live, o.orderId ≠ id := by
  constructor
  · rintro hnone o ho rfl
    obtain ⟨c, hc⟩ := exists_cancelOrder h ho
    simp [hnone] at hc
  · intro hall
    cases hc : b.cancelOrder id with
    | none => rfl
    | some c =>
      have hrem := removes_of_cancelOrder h hc
      exact absurd hrem.orderId (hall _ hrem.mem_live)

end EuNEx.Book
