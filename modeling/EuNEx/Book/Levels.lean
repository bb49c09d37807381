import EuNEx.Book.Basic
import Mathlib.Data.Multiset.Basic
import Mathlib.Data.Multiset.AddSub

/-!
# Levels and resting orders

The level maps seen as lists of resting orders, and the shape of a level that the matching and
cancel code relies on: it is not empty, its orders have the price and the side under which they
are filed, and they stand in the order of their ids.
-/

namespace EuNEx

/-- Both orders are the same but for the quantity still open, which can only have shrunk. -/
structure Order.Shrunk (o o' : Order) : Prop where
  eq : o' = { o with remainingQty := o'.remainingQty }
  le : o'.remainingQty ≤ o.remainingQty

namespace Order.Shrunk

variable {o o' : Order}

lemma refl (o : Order) : o.Shrunk o := ⟨rfl, le_rfl⟩

lemma orderId (h : o.Shrunk o') : o'.orderId = o.orderId := by rw [h.eq]

lemma side (h : o.Shrunk o') : o'.side = o.side := by rw [h.eq]

lemma price (h : o.Shrunk o') : o'.price = o.price := by rw [h.eq]

lemma ordType (h : o.Shrunk o') : o'.ordType = o.ordType := by rw [h.eq]

lemma trans {o'' : Order} (h : o.Shrunk o') (h' : o'.Shrunk o'') : o.Shrunk o'' :=
  ⟨by rw [h'.eq, h.eq], h'.le.trans h.le⟩

end Order.Shrunk

/-- Price priority, and within a price the order of the ids. -/
def Order.Priority (s : Side) (o o' : Order) : Prop :=
  s.before o.price o'.price ∨ (o.price = o'.price ∧ o.orderId < o'.orderId)

lemma Order.Priority.asymm {s : Side} {o o' : Order} (h : o.Priority s o') : ¬o'.Priority s o := by
  intro h'
  rcases h with h | ⟨heq, hlt⟩
  · rcases h' with h' | ⟨heq', -⟩
    · exact asymm_of s.before h h'
    · exact irrefl_of s.before _ (heq' ▸ h)
  · rcases h' with h' | ⟨-, hlt'⟩
    · exact irrefl_of s.before _ (heq ▸ h')
    · exact absurd hlt hlt'.asymm

/-- The shape of a level on side `s`. -/
structure LevelOK (s : Side) (level : ℤ × List Order) : Prop where
  nonempty : level.2 ≠ []
  price : ∀ o ∈ level.2, o.price = level.1
  side : ∀ o ∈ level.2, o.side = s
  executable : ∀ o ∈ level.2, o.ordType.isStop = false
  arrival : level.2.Pairwise fun o o' => o.orderId < o'.orderId

/-- All levels of a side have their shape. -/
def Levels.OK {s : Side} (levels : Levels s) : Prop := ∀ level ∈ levels.entries, LevelOK s level

namespace Levels

variable {s : Side} {levels : Levels s}

lemma ok_empty : (∅ : Levels s).OK := by simp [OK]

lemma OK.price {o : Order} (h : levels.OK) (ho : o ∈ levels.elems) : o.price ∈ levels.keys := by
  obtain ⟨level, hl, hol⟩ := OrdMap.mem_elems.mp ho
  rw [(h level hl).price o hol]
  exact List.mem_map_of_mem hl

lemma OK.side {o : Order} (h : levels.OK) (ho : o ∈ levels.elems) : o.side = s := by
  obtain ⟨level, hl, hol⟩ := OrdMap.mem_elems.mp ho
  exact (h level hl).side o hol

lemma OK.executable {o : Order} (h : levels.OK) (ho : o ∈ levels.elems) :
    o.ordType.isStop = false := by
  obtain ⟨level, hl, hol⟩ := OrdMap.mem_elems.mp ho
  exact (h level hl).executable o hol

/-- Every key has an order at its price. -/
lemma OK.exists_of_mem_keys {p : ℤ} (h : levels.OK) (hp : p ∈ levels.keys) :
    ∃ o ∈ levels.elems, o.price = p := by
  obtain ⟨level, hl, rfl⟩ := List.mem_map.mp hp
  obtain ⟨o, os, ho⟩ := List.exists_cons_of_ne_nil (h level hl).nonempty
  have hmem : o ∈ level.2 := by simp [ho]
  exact ⟨o, OrdMap.mem_elems.mpr ⟨level, hl, hmem⟩, (h level hl).price o hmem⟩

/-- The resting orders of a side stand in their priority. -/
lemma OK.elems_priority (h : levels.OK) : levels.elems.Pairwise (Order.Priority s) := by
  obtain ⟨es, hs⟩ := levels
  simp only [OK] at h
  show (Sweep.ungroup es).Pairwise _
  induction es with
  | nil => simp
  | cons e es ih =>
    have he := h e (by simp)
    rw [Sweep.ungroup_cons, List.pairwise_append]
    refine ⟨?_, ih hs.of_cons fun level hl => h level (by simp [hl]), ?_⟩
    · apply he.arrival.imp_of_mem
      intro o o' ho ho' hlt
      exact Or.inr ⟨by rw [he.price o ho, he.price o' ho'], hlt⟩
    · intro o ho o' ho'
      obtain ⟨level, hl, hol⟩ := Sweep.mem_ungroup.mp ho'
      rw [Order.Priority, he.price o ho, (h level (by simp [hl])).price o' hol]
      exact Or.inl (List.rel_of_pairwise_cons hs hl)

/-- In particular, better prices come first. -/
lemma OK.elems_sorted (h : levels.OK) :
    levels.elems.Pairwise fun o o' => o.price = o'.price ∨ s.before o.price o'.price := by
  apply h.elems_priority.imp
  rintro o o' (hbefore | ⟨heq, -⟩)
  · exact Or.inr hbefore
  · exact Or.inl heq

section

variable {σ : Type*} {stop : σ → ℤ → Bool}
  {visit : ℤ → σ → Order → Option (σ × Option Order)} {st : σ}

/-- A nested loop that only shrinks orders keeps the shape of the levels. -/
lemma OK.sweep (h : levels.OK)
    (hvisit : ∀ p st o st' o', visit p st o = some (st', some o') → o.Shrunk o') :
    Levels.OK (levels.sweep stop visit st).2 := by
  refine (Sweep.sweep_forall (I := fun _ => True) (Q := LevelOK s) ?_ trivial h).2
  rintro st level st' left - hlevel hv
  obtain ⟨-, -, hleft⟩ := Sweep.visitGroup_eq_some hv
  refine ⟨trivial, fun level' hl => ?_⟩
  obtain ⟨hkey, hrest, hne⟩ := hleft level' hl
  have hall : ∀ o ∈ (Sweep.sweep (visit level.1) st level.2).2,
      o.price = level.1 ∧ o.side = s ∧ o.ordType.isStop = false := by
    refine (Sweep.sweep_forall (I := fun _ => True) (fun st o st' left _ ho hv => ?_) trivial
      fun o ho => ⟨hlevel.price o ho, hlevel.side o ho, hlevel.executable o ho⟩).2
    refine ⟨trivial, fun o' ho' => ?_⟩
    have hs := hvisit _ _ _ _ _ (by rw [hv, Option.mem_def.mp ho'])
    rw [hs.price, hs.side, hs.ordType]
    exact ho
  rw [← hrest] at hall
  refine ⟨hne, ?_, fun o ho => (hall o ho).2.1, fun o ho => (hall o ho).2.2, ?_⟩
  · intro o ho
    rw [hkey]
    exact (hall o ho).1
  · have hsub : ((Sweep.sweep (visit level.1) st level.2).2.map Order.orderId).Sublist
        (level.2.map Order.orderId) :=
      Sweep.sweep_map_sublist fun st o st' o' hv => (hvisit _ _ _ _ _ hv).orderId
    rw [← hrest] at hsub
    exact List.pairwise_map.mp ((List.pairwise_map.mpr hlevel.arrival).sublist hsub)

/-- The nested loop over the levels is the flat loop over the resting orders. -/
lemma OK.sweep_flat (h : levels.OK) (stop : σ → ℤ → Bool)
    (visit : ℤ → σ → Order → Option (σ × Option Order)) (st : σ)
    (hend : ∀ p st o, visit p st o = none → ∀ p', stop st p' = true)
    (hmid : ∀ p st o st' left, stop st p = false → visit p st o = some (st', left) →
      stop st' p = true → ∀ o, visit p st' o = none) :
    Sweep.sweep (Sweep.visitFlat Order.price stop visit) st levels.elems
      = ((levels.sweep stop visit st).1, (levels.sweep stop visit st).2.elems) :=
  Sweep.sweepGroups_flat (fun level hl => (h level hl).price)
    (fun level hl => (h level hl).nonempty) hend hmid

end

/-! ### Inserting and removing an order -/

lemma elems_upsert_perm (levels : Levels s) (p : ℤ) (o : Order) :
    (levels.upsert p fun level => level.getD [] ++ [o]).elems.Perm (o :: levels.elems) := by
  rcases levels.upsert_entries p fun level => level.getD [] ++ [o] with
    ⟨as, bs, h, h'⟩ | ⟨as, v, bs, h, h'⟩
  · simp only [OrdMap.elems, h, h', Sweep.ungroup_append, Sweep.ungroup_cons]
    simp only [Option.getD_none, List.nil_append, List.singleton_append]
    exact List.perm_middle
  · simp only [OrdMap.elems, h, h', Sweep.ungroup_append, Sweep.ungroup_cons]
    simp only [Option.getD_some, List.append_assoc, List.singleton_append]
    rw [← List.append_assoc, ← List.append_assoc (Sweep.ungroup as)]
    exact List.perm_middle

/-- Pushing back an order at its price keeps the shape, if its id is larger than those there. -/
lemma OK.upsert {o : Order} (h : levels.OK) (hside : o.side = s) (hexec : o.ordType.isStop = false)
    (hid : ∀ o' ∈ levels.elems, o'.orderId < o.orderId) :
    Levels.OK (levels.upsert o.price fun level => level.getD [] ++ [o]) := by
  intro level hl
  rcases OrdMap.mem_upsert hl with hl | rfl | ⟨v, hv, rfl⟩
  · exact h level hl
  · exact ⟨by simp, by simp, by simp [hside], by simp [hexec], by simp⟩
  · have hlv := h _ hv
    refine ⟨by simp, ?_, ?_, ?_, ?_⟩
    · simpa [or_imp, forall_and] using hlv.price
    · simpa [or_imp, forall_and, hside] using hlv.side
    · simpa [or_imp, forall_and, hexec] using hlv.executable
    · simp only [Option.getD_some, List.pairwise_append, List.pairwise_singleton, true_and,
        List.mem_singleton]
      exact ⟨hlv.arrival, fun o' ho' _ heq => heq ▸ hid o' (OrdMap.mem_elems.mpr ⟨_, hv, ho'⟩)⟩

/-- What the two cancel branches do to the level at `price`. -/
def eraseOrder (levels : Levels s) (price : ℤ) (orderId : ℕ) : Levels s :=
  levels.adjust price fun vec =>
    let vec := vec.eraseP fun o => o.orderId = orderId
    if vec.isEmpty then none else some vec

lemma elems_eraseOrder_perm {p : ℤ} {vec : List Order} {id : ℕ} {o : Order}
    (hvec : levels.find? p = some vec) (ho : (vec.find? fun o => o.orderId = id) = some o) :
    levels.elems.Perm (o :: (levels.eraseOrder p id).elems) := by
  obtain ⟨as, bs, hsplit, -⟩ := OrdMap.find?_split hvec
  obtain ⟨hid, xs, ys, rfl, hxs⟩ := List.find?_eq_some_iff_append.mp ho
  have herase : ((xs ++ o :: ys).eraseP fun o => o.orderId = id) = xs ++ ys := by
    rw [List.eraseP_append_right _ fun x hx => by simpa using hxs x hx]
    simp [show o.orderId = id by simpa using hid]
  have hrest : (levels.eraseOrder p id).elems
      = Sweep.ungroup as ++ (xs ++ ys ++ Sweep.ungroup bs) := by
    simp only [OrdMap.elems, eraseOrder, OrdMap.adjust_entries hsplit, herase,
      Sweep.ungroup_append]
    congr 2
    split <;> simp_all
  rw [hrest]
  simp only [OrdMap.elems, hsplit, Sweep.ungroup_append, Sweep.ungroup_cons]
  simp only [List.append_assoc, List.cons_append]
  rw [← List.append_assoc, ← List.append_assoc (Sweep.ungroup as)]
  exact List.perm_middle

lemma OK.eraseOrder {p : ℤ} {vec : List Order} {id : ℕ} (h : levels.OK)
    (hvec : levels.find? p = some vec) : (levels.eraseOrder p id).OK := by
  obtain ⟨as, bs, hsplit, -⟩ := OrdMap.find?_split hvec
  have hp := h (p, vec) (by simp [hsplit])
  have hsub : (vec.eraseP fun o => o.orderId = id).Sublist vec := List.eraseP_sublist
  intro level hl
  simp only [Levels.eraseOrder, OrdMap.adjust_entries hsplit, List.mem_append,
    Option.mem_toList] at hl
  rcases hl with hl | hl | hl
  · exact h level (by simp [hsplit, hl])
  · split at hl
    · cases hl
    · rename_i hne
      cases hl
      exact ⟨by simpa using hne, fun o ho => hp.price o (hsub.subset ho),
        fun o ho => hp.side o (hsub.subset ho), fun o ho => hp.executable o (hsub.subset ho),
        hp.arrival.sublist hsub⟩
  · exact h level (by simp [hsplit, hl])

end Levels

/-! ### The index -/

/-- The index has side and price of each of the orders, under its own id, and nothing else. -/
structure Indexed (index : OrderIndex) (orders : Multiset Order) : Prop where
  nodup : (orders.map Order.orderId).Nodup
  lookup : ∀ id side price, index.lookup id = some (side, price) ↔
    ∃ o ∈ orders, o.orderId = id ∧ o.side = side ∧ o.price = price

namespace Indexed

variable {index : OrderIndex} {orders : Multiset Order} {o o' : Order}

lemma empty : Indexed ∅ 0 := ⟨by simp, by simp⟩

lemma ne_of_mem (h : Indexed index (o ::ₘ orders)) (ho' : o' ∈ orders) :
    o'.orderId ≠ o.orderId := by
  have hnd := h.nodup
  rw [Multiset.map_cons, Multiset.nodup_cons] at hnd
  intro heq
  exact hnd.1 (heq ▸ Multiset.mem_map_of_mem _ ho')

lemma insert (h : Indexed index orders) (hid : ∀ o' ∈ orders, o'.orderId ≠ o.orderId) :
    Indexed (index.insert o.orderId (o.side, o.price)) (o ::ₘ orders) := by
  constructor
  · rw [Multiset.map_cons, Multiset.nodup_cons]
    refine ⟨fun hmem => ?_, h.nodup⟩
    obtain ⟨o', ho', heq⟩ := Multiset.mem_map.mp hmem
    exact hid o' ho' heq
  · intro id side price
    by_cases heq : id = o.orderId
    · subst heq
      simp only [Finmap.lookup_insert, Option.some.injEq, Prod.mk.injEq, Multiset.mem_cons]
      constructor
      · rintro ⟨rfl, rfl⟩
        exact ⟨o, Or.inl rfl, rfl, rfl, rfl⟩
      · rintro ⟨o', rfl | ho', hid', rfl, rfl⟩
        · exact ⟨rfl, rfl⟩
        · exact absurd hid' (hid o' ho')
    · rw [Finmap.lookup_insert_of_ne _ heq, h.lookup]
      constructor
      · rintro ⟨o', ho', hrest⟩
        exact ⟨o', Multiset.mem_cons_of_mem ho', hrest⟩
      · rintro ⟨o', ho', hid', hrest⟩
        rcases Multiset.mem_cons.mp ho' with rfl | ho'
        · exact absurd hid'.symm heq
        · exact ⟨o', ho', hid', hrest⟩

lemma erase (h : Indexed index (o ::ₘ orders)) : Indexed (index.erase o.orderId) orders := by
  have hnd := h.nodup
  rw [Multiset.map_cons, Multiset.nodup_cons] at hnd
  refine ⟨hnd.2, fun id side price => ?_⟩
  by_cases heq : id = o.orderId
  · subst heq
    simp only [Finmap.lookup_erase, reduceCtorEq, false_iff]
    rintro ⟨o', ho', hid', -⟩
    exact h.ne_of_mem ho' hid'
  · rw [Finmap.lookup_erase_ne heq, h.lookup]
    constructor
    · rintro ⟨o', ho', hid', hrest⟩
      rcases Multiset.mem_cons.mp ho' with rfl | ho'
      · exact absurd hid'.symm heq
      · exact ⟨o', ho', hid', hrest⟩
    · rintro ⟨o', ho', hrest⟩
      exact ⟨o', Multiset.mem_cons_of_mem ho', hrest⟩

/-- The index does not see quantities. -/
lemma shrink (h : Indexed index (o ::ₘ orders)) (ho : o.Shrunk o') :
    Indexed index (o' ::ₘ orders) := by
  refine ⟨by simpa [ho.orderId] using h.nodup, fun id side price => ?_⟩
  rw [h.lookup]
  simp only [Multiset.mem_cons, exists_eq_or_imp, ho.orderId, ho.side, ho.price]

end Indexed

namespace Book

variable {b : Book} {s : Side}

/-- The resting orders of a side, best price first, then by arrival. -/
def resting (b : Book) (s : Side) : List Order := (b.levels s).elems

@[simp] lemma levels_setLevels (levels : Levels s) : (b.setLevels s levels).levels s = levels := by
  cases s <;> rfl

@[simp] lemma levels_setLevels_opposite (levels : Levels s) :
    (b.setLevels s levels).levels s.opposite = b.levels s.opposite := by
  cases s <;> rfl

@[simp] lemma resting_setLevels (levels : Levels s) :
    (b.setLevels s levels).resting s = levels.elems := by
  simp [resting]

@[simp] lemma setLevels_symbolIdx (levels : Levels s) :
    (b.setLevels s levels).symbolIdx = b.symbolIdx := by cases s <;> rfl

@[simp] lemma setLevels_nextTradeId (levels : Levels s) :
    (b.setLevels s levels).nextTradeId = b.nextTradeId := by cases s <;> rfl

@[simp] lemma setLevels_nextOrderId (levels : Levels s) :
    (b.setLevels s levels).nextOrderId = b.nextOrderId := by cases s <;> rfl

@[simp] lemma setLevels_lastTradePrice (levels : Levels s) :
    (b.setLevels s levels).lastTradePrice = b.lastTradePrice := by cases s <;> rfl

@[simp] lemma setLevels_phase (levels : Levels s) :
    (b.setLevels s levels).phase = b.phase := by cases s <;> rfl

@[simp] lemma setLevels_orderIndex (levels : Levels s) :
    (b.setLevels s levels).orderIndex = b.orderIndex := by cases s <;> rfl

@[simp] lemma setLevels_stopOrders (levels : Levels s) :
    (b.setLevels s levels).stopOrders = b.stopOrders := by cases s <;> rfl

end Book

end EuNEx
