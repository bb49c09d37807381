import EuNEx.Dashboard.Requests

/-!
# Crossed books of the dashboard

A new order rests only after it has traded with everything within its reach. `amend_order` puts an
order back on the book without matching: a run stays uncrossed exactly as long as no amend takes an
open order to a price that reaches the other side.
-/

namespace EuNEx.Dashboard

variable {P : Type*} [LinearOrder P]

namespace MatchingEngine

variable {m m' : MatchingEngine P} {symbolIdx : ℕ} {s : Side} {o incoming : Order P}

/-- Every bid price is below every ask price. -/
def Uncrossed (m : MatchingEngine P) : Prop :=
  ∀ symbolIdx, ∀ bid ∈ m.entries symbolIdx .buy, ∀ ask ∈ m.entries symbolIdx .sell,
    bid.price < ask.price

/-- The price of the order reaches an entry of the other side. -/
def Reaches (m : MatchingEngine P) (o : Order P) : Prop :=
  ∃ e ∈ m.entries o.symbolIdx o.side.opposite, KeyLe o.side.opposite e.price o.price

/-- The entries of the other side are out of reach. -/
def Apart (m : MatchingEngine P) (symbolIdx : ℕ) (s : Side) : Prop :=
  ∀ e ∈ m.entries symbolIdx s, ∀ e' ∈ m.entries symbolIdx s.opposite,
    ¬KeyLe s.opposite e'.price e.price

lemma apart_opposite : m.Apart symbolIdx s.opposite ↔ m.Apart symbolIdx s := by
  cases s with
  | buy => exact ⟨fun h e he e' he' => h e' he' e he, fun h e he e' he' => h e' he' e he⟩
  | sell => exact ⟨fun h e he e' he' => h e' he' e he, fun h e he e' he' => h e' he' e he⟩

/-- Seen from either side. -/
lemma uncrossed_iff : m.Uncrossed ↔ ∀ symbolIdx s, m.Apart symbolIdx s := by
  have hbuy : ∀ symbolIdx, m.Apart symbolIdx .buy ↔ ∀ bid ∈ m.entries symbolIdx .buy,
      ∀ ask ∈ m.entries symbolIdx .sell, bid.price < ask.price := fun symbolIdx =>
    forall₄_congr fun _ _ _ _ => not_le
  constructor
  · intro h symbolIdx s
    cases s with
    | buy => exact (hbuy symbolIdx).mpr (h symbolIdx)
    | sell => exact (apart_opposite (s := .buy)).mpr ((hbuy symbolIdx).mpr (h symbolIdx))
  · exact fun h symbolIdx => (hbuy symbolIdx).mp (h symbolIdx .buy)

lemma Apart.mono (h : m.Apart symbolIdx s) (hprices : ∀ t, ∀ e ∈ m'.entries symbolIdx t,
    ∃ e₀ ∈ m.entries symbolIdx t, e₀.price = e.price) : m'.Apart symbolIdx s := by
  intro e he e' he'
  obtain ⟨e₀, he₀, hprice⟩ := hprices s e he
  obtain ⟨e₁, he₁, hprice'⟩ := hprices s.opposite e' he'
  rw [← hprice, ← hprice']
  exact h e₀ he₀ e₁ he₁

/-- An order that is put to rest keeps the sides apart exactly if it reaches nothing. -/
lemma apart_insertResting (h : m.Apart o.symbolIdx o.side) :
    (m.insertResting o).Apart o.symbolIdx o.side ↔ ¬m.Reaches o := by
  have hown : ∀ e, e ∈ (m.insertResting o).entries o.symbolIdx o.side ↔
      e ∈ m.entries o.symbolIdx o.side ∨ e = o.entry := by
    intro e
    rw [insertResting, entries_setEntries, (List.perm_insertionSort _ _).mem_iff]
    simp
  have hother : (m.insertResting o).entries o.symbolIdx o.side.opposite
      = m.entries o.symbolIdx o.side.opposite :=
    entries_setEntries_of_ne (.inr (Side.ne_opposite _).symm)
  rw [Apart, hother]
  constructor
  · rintro hapart ⟨e', he', hle⟩
    exact hapart o.entry ((hown _).mpr (.inr rfl)) e' he' hle
  · intro hreach e he e' he' hle
    rcases (hown e).mp he with he | rfl
    · exact h e he e' he' hle
    · exact hreach ⟨e', he', hle⟩

lemma apart_insertResting_of_ne (h : symbolIdx ≠ o.symbolIdx) :
    (m.insertResting o).Apart symbolIdx s ↔ m.Apart symbolIdx s := by
  have hentries : ∀ t, (m.insertResting o).entries symbolIdx t = m.entries symbolIdx t :=
    fun t => entries_setEntries_of_ne (.inl h)
  rw [Apart, Apart, hentries, hentries]

lemma uncrossed_insertResting (h : m.Uncrossed) :
    (m.insertResting o).Uncrossed ↔ ¬m.Reaches o := by
  rw [uncrossed_iff] at h ⊢
  rw [← apart_insertResting (h o.symbolIdx o.side)]
  refine ⟨fun hall => hall _ _, fun hside symbolIdx s => ?_⟩
  rcases eq_or_ne symbolIdx o.symbolIdx with rfl | hne
  · rcases eq_or_ne s o.side with rfl | hs
    · exact hside
    · have hopposite : s = o.side.opposite := by
        cases s <;> cases hside' : o.side <;> simp_all
      exact hopposite ▸ apart_opposite.mpr hside
  · exact (apart_insertResting_of_ne hne).mpr (h symbolIdx s)

/-! ### New orders -/

lemma prices_matchIncoming (incoming : Order P) {e : Entry P}
    (he : e ∈ (m.matchIncoming incoming).entries symbolIdx s) :
    ∃ e₀ ∈ m.entries symbolIdx s, e₀.price = e.price := by
  have hmem := (keys_matchIncoming incoming).subset (List.mem_map_of_mem he)
  obtain ⟨e₀, he₀, heq⟩ := List.mem_map.mp hmem
  exact ⟨e₀, he₀, (Prod.mk.inj heq).1⟩

/-- A price that is no better than one out of reach is out of reach. -/
lemma priceOk_of_keyLe {p q : P} (h : KeyLe incoming.side.opposite p q)
    (hq : incoming.priceOk q = true) : incoming.priceOk p = true := by
  rw [Order.priceOk, Bool.or_eq_true] at hq ⊢
  refine hq.imp_right fun hprice => ?_
  cases hside : incoming.side with
  | buy =>
    rw [hside] at h
    simp only [hside, decide_eq_true_eq] at hprice ⊢
    exact le_trans h hprice
  | sell =>
    rw [hside] at h
    simp only [hside, decide_eq_true_eq] at hprice ⊢
    exact le_trans hprice h

lemma priceOk_eq_true_of_keyLe {p : P} (h : KeyLe incoming.side.opposite p incoming.price) :
    incoming.priceOk p = true := by
  rw [Order.priceOk, Bool.or_eq_true]
  right
  cases hside : incoming.side with
  | buy =>
    rw [hside] at h
    exact decide_eq_true h
  | sell =>
    rw [hside] at h
    exact decide_eq_true h

/-- While the order has something left the loop drops every entry that it visits, so the entries
that are left are those from the first one out of reach on. -/
lemma out_of_reach_sweepOpposite
    (hsorted : (m.entries incoming.symbolIdx incoming.side.opposite).Pairwise
      (Entry.Le incoming.side.opposite))
    (hpos : 0 < (m.sweepOpposite incoming).incoming.remainingQty) :
    ∀ e ∈ (m.sweepOpposite incoming).entries incoming.symbolIdx incoming.side.opposite,
      incoming.priceOk e.price = false := by
  rw [entries_sweepOpposite]
  set l := m.entries incoming.symbolIdx incoming.side.opposite with hl
  set k := (Sweep.sweep Match.visit ⟨m, incoming, []⟩ l).1 with hk
  replace hpos : 0 < k.incoming.remainingQty := hpos
  have hvisit : ∀ (k : Match P) done e todo k' left, ((0 < k.incoming.remainingQty → done = []) ∧
      (e :: todo).Pairwise (Entry.Le incoming.side.opposite)) → k.visit e = some (k', left) →
      (0 < k'.incoming.remainingQty → done ++ left.toList = []) ∧
        todo.Pairwise (Entry.Le incoming.side.opposite) := by
    intro k done e todo k' left hinv hv
    obtain ⟨rfl, rfl⟩ := Match.fill_of_visit hv
    refine ⟨fun hpos' => ?_, (List.pairwise_cons.mp hinv.2).2⟩
    rw [hinv.1 (Match.pos_of_visit hv).1, Match.fill_eq_none hpos']
    rfl
  obtain ⟨done, todo, hrest, ⟨hdone, htodo⟩, hstop⟩ : ∃ done todo,
      (Sweep.sweep Match.visit ⟨m, incoming, []⟩ l).2 = done ++ todo ∧
        ((0 < k.incoming.remainingQty → done = []) ∧
          todo.Pairwise (Entry.Le incoming.side.opposite)) ∧
        ∀ e ∈ todo.head?, k.visit e = none :=
    Sweep.sweep_rule Match.visit (P := fun k done todo =>
      (0 < k.incoming.remainingQty → done = []) ∧
        todo.Pairwise (Entry.Le incoming.side.opposite)) hvisit ⟨fun _ => rfl, hsorted⟩
  rw [hrest, hdone hpos, List.nil_append]
  have hpriceOk : ∀ p, k.incoming.priceOk p = incoming.priceOk p := by
    intro p
    rw [(Match.sweep_frame ⟨m, incoming, []⟩ l).incoming]
    rfl
  cases todo with
  | nil => simp
  | cons e todo =>
    have hout : incoming.priceOk e.price = false := by
      have hnone := hstop e rfl
      rw [Match.visit] at hnone
      split at hnone
      · rename_i hcond
        rw [← hpriceOk]
        exact hcond.resolve_left hpos.not_ge
      · cases hnone
    intro e' he'
    rcases List.mem_cons.mp he' with rfl | he'
    · exact hout
    · have hle : Entry.Le incoming.side.opposite e e' := List.rel_of_pairwise_cons htodo he'
      exact Bool.eq_false_iff.mpr fun hok => Bool.eq_false_iff.mp hout (priceOk_of_keyLe hle hok)

/-- An order that comes to rest reaches nothing. -/
lemma not_reaches_of_rests (hsorted : ∀ symbolIdx s,
      (m.entries symbolIdx s).Pairwise (Entry.Le s))
    (hpos : 0 < (m.matchIncoming incoming).incoming.remainingQty)
    (hstatus : (m.matchIncoming incoming).incoming.status ≠ .rejected) :
    ¬(m.matchIncoming incoming).Reaches (m.matchIncoming incoming).incoming := by
  rintro ⟨e, he, hle⟩
  rw [(matchIncoming_frame m incoming).incoming] at he hle
  rw [matchIncoming] at he hpos hstatus
  split at he
  · rename_i hreject
    rw [if_pos hreject] at hstatus
    exact hstatus rfl
  · rename_i hgo
    rw [if_neg hgo] at hpos
    have hout := out_of_reach_sweepOpposite (hsorted _ _) hpos e he
    have hok : incoming.priceOk e.price = true := priceOk_eq_true_of_keyLe hle
    rw [hok] at hout
    cases hout

lemma Uncrossed.removeFromBook (h : m.Uncrossed) (hm : m.InStep) {o' : Order P}
    (ho : o ∈ m.orders) (hid : o'.orderId = o.orderId) (hsymbol : o'.symbolIdx = o.symbolIdx)
    (hside : o'.side = o.side) : (m.removeFromBook o').Uncrossed := by
  rw [uncrossed_iff] at h ⊢
  refine fun symbolIdx s => (h symbolIdx s).mono fun t e he => ⟨e, ?_, rfl⟩
  rw [hm.entries_removeFromBook ho hid hsymbol hside] at he
  exact (List.mem_filter.mp he).1

variable [Zero P]

/-- A new order keeps the book uncrossed. -/
lemma Uncrossed.submitOrder (h : m.Uncrossed) (hm : m.InStep) (symbolIdx : ℕ)
    (r : Submission P) : (m.submitOrder symbolIdx r).1.Uncrossed := by
  set entered : MatchingEngine P := { m with nextOrderId := m.nextOrderId + 1 } with hentered
  set k := entered.matchIncoming (r.order symbolIdx m.nextOrderId) with hk
  have hmatched : k.Uncrossed := by
    rw [uncrossed_iff] at h ⊢
    exact fun symbolIdx s => (h symbolIdx s).mono fun t e he =>
      prices_matchIncoming (m := entered) _ he
  show k.settle.Uncrossed
  cases k.settles with
  | done status hk' =>
    rw [hk']
    exact hmatched
  | rests hpos hstatus hlimit hk' =>
    rw [hk']
    exact (uncrossed_insertResting hmatched).mpr
      (not_reaches_of_rests (m := entered) hm.sorted hpos hstatus)

/-! ### Amends -/

/-- An amend keeps the book uncrossed exactly if it reaches nothing. -/
lemma Uncrossed.amendOrder_iff (h : m.Uncrossed) (hm : m.InStep) (ho : o ∈ m.orders) {id : ℕ}
    {newPrice : Option P} {newQuantity : Option ℤ} {r : MatchingEngine P × Order P}
    (hr : m.amendOrder id newPrice newQuantity = some r) (hid : o.orderId = id) :
    r.1.Uncrossed ↔ ¬m.Reaches (o.amend newPrice newQuantity) := by
  obtain ⟨o₀, ho₀, hid₀, -, rfl⟩ := exists_of_amendOrder hr
  obtain rfl := hm.eq_of_orderId ho ho₀ (hid.trans hid₀.symm)
  subst hid
  set o' := o.amend newPrice newQuantity with ho'
  have hremoved : (m.removeFromBook o').Uncrossed := h.removeFromBook hm ho rfl rfl rfl
  have hother : (m.removeFromBook o').entries o'.symbolIdx o'.side.opposite
      = m.entries o'.symbolIdx o'.side.opposite :=
    InStep.entries_removeFromBook_of_ne (.inr (Side.ne_opposite _).symm)
  have hreaches : (m.removeFromBook o').Reaches o' ↔ m.Reaches o' := by
    rw [Reaches, Reaches, hother]
  rw [← hreaches]
  exact uncrossed_insertResting (o := o') hremoved

lemma Uncrossed.cancelOrder (h : m.Uncrossed) (hm : m.InStep) {id : ℕ}
    {r : MatchingEngine P × Order P} (hr : m.cancelOrder id = some r) : r.1.Uncrossed := by
  obtain ⟨o, ho, rfl, -, rfl⟩ := exists_of_cancelOrder hr
  exact h.removeFromBook hm ho rfl rfl rfl

/-! ### Runs -/

/-- No amend of an open order goes to a price that reaches the other side. -/
def OutOfReach (m : MatchingEngine P) : Request P → Prop
  | .amend orderId newPrice newQuantity => ∀ o ∈ m.orders, o.orderId = orderId →
      o.isOpen = true → ¬m.Reaches (o.amend newPrice newQuantity)
  | _ => True

/-- An amend that reaches the other side trades as a new order of that price and quantity does,
once the old one is off the book. -/
def TradesAsNew (symbols : List ℕ) (m : MatchingEngine P) : Request P → Prop
  | .amend orderId newPrice newQuantity => ∀ o ∈ m.orders, o.orderId = orderId →
      o.isOpen = true → m.Reaches (o.amend newPrice newQuantity) →
      (m.handle symbols (.amend orderId newPrice newQuantity)).1.trades
        = ((m.removeFromBook o).matchIncoming (o.amend newPrice newQuantity)).trades
  | _ => True

/-- One request. -/
lemma Uncrossed.handle_iff (h : m.Uncrossed) (hm : m.InStep) (symbols : List ℕ)
    (request : Request P) : (m.handle symbols request).1.Uncrossed ∧
      m.TradesAsNew symbols request ↔ m.OutOfReach request := by
  cases request with
  | submit symbolIdx r =>
    rw [MatchingEngine.handle]
    simp only [TradesAsNew, OutOfReach, and_true, iff_true]
    split
    · exact h.submitOrder hm symbolIdx r
    · exact h
  | cancel id =>
    rw [MatchingEngine.handle]
    simp only [TradesAsNew, OutOfReach, and_true, iff_true]
    cases hr : m.cancelOrder id with
    | none => exact h
    | some r => exact h.cancelOrder hm hr
  | amend id newPrice newQuantity =>
    constructor
    · rintro ⟨hafter, -⟩ o ho hid hopen
      obtain ⟨r, hr⟩ := exists_amendOrder ho hid hopen newPrice newQuantity
      rw [MatchingEngine.handle, hr] at hafter
      exact (h.amendOrder_iff hm ho hr hid).mp hafter
    · intro hout
      refine ⟨?_, fun o ho hid hopen hreach => absurd hreach (hout o ho hid hopen)⟩
      rw [MatchingEngine.handle]
      cases hr : m.amendOrder id newPrice newQuantity with
      | none => exact h
      | some r =>
        obtain ⟨o, ho, hid, hopen, -⟩ := exists_of_amendOrder hr
        exact (h.amendOrder_iff hm ho hr hid).mpr (hout o ho hid hopen)

/-- In every run, the book is never crossed and amends that reach the other side trade, exactly if
no amend of an open order reaches the other side. -/
theorem run_uncrossed_iff (symbols : List ℕ) (requests : List (Request P)) :
    Machine.Throughout (serve symbols) Uncrossed {} requests ∧
        Machine.Along (serve symbols) (TradesAsNew symbols) {} requests ↔
      Machine.Along (serve symbols) OutOfReach ({} : MatchingEngine P) requests := by
  refine Machine.throughout_along_iff (A := fun _ _ => True) (I := InStep)
    (fun m request _ h => h.handle symbols request)
    (fun m request _ hm h => h.handle_iff hm symbols request)
    (Machine.along_of_forall fun _ _ => trivial) .empty ?_
  intro symbolIdx bid hbid
  cases hbid

/-- An offer at 101, a bid at 100, and an amend of the bid to 101. -/
def crossingAmend : List (Request ℤ) :=
  [.submit 1 ⟨.sell, .limit, 101, 10, .day, []⟩, .submit 1 ⟨.buy, .limit, 100, 10, .day, []⟩,
    .amend 1001 (some 101) none]

/-- The amend leaves a bid and an offer at 101. -/
theorem not_uncrossed_crossingAmend :
    ¬Machine.Throughout (serve [1]) Uncrossed {} crossingAmend := by
  intro h
  have hcrossed := h.2.2.2 1 ⟨1001, 101, 10, .buy⟩ (by decide) ⟨1000, 101, 10, .sell⟩ (by decide)
  exact lt_irrefl _ hcrossed

end MatchingEngine

end EuNEx.Dashboard
