import EuNEx.Dashboard.Requests
import EuNEx.Lib.Tally

/-!
# Executed quantities of the dashboard

What an order has executed is its quantity less what is open of it. `amend_order` overwrites both: a
run keeps its accounts exactly as long as no amend gives a new quantity to an order that has already
traded.
-/

namespace EuNEx.Dashboard

variable {P : Type*}

/-- The quantity that an order has in a trade. -/
def Trade.executed (orderId : ℕ) (t : Trade P) : ℤ :=
  if t.buyOrderId = orderId ∨ t.sellOrderId = orderId then t.quantity else 0

/-- The quantity that an order has in the trades in which it took part. -/
def executed (trades : List (Trade P)) (orderId : ℕ) : ℤ :=
  Tally.balance (Trade.executed orderId) trades

/-- The quantity of the order less what is open is what it has executed. -/
def Order.Accounted (trades : List (Trade P)) (o : Order P) : Prop :=
  o.quantity - o.remainingQty = executed trades o.orderId

instance (trades : List (Trade P)) (o : Order P) : Decidable (o.Accounted trades) :=
  inferInstanceAs (Decidable (_ = _))

/-- Nothing is open twice: what is open is not negative, and an open order has something. -/
def Order.Signed (o : Order P) : Prop := 0 ≤ o.remainingQty ∧ (o.isOpen = true → 0 < o.remainingQty)

/-- `cum_qty` of the report that `FIXSession._handle_amend` sends for the order it gets back. -/
def FIXSession.cumQty (result : Order P) : ℤ := result.quantity - result.remainingQty

/-- Quantities are positive. -/
def Request.Positive : Request P → Prop
  | .submit _ r => 0 < r.quantity
  | .cancel _ => True
  | .amend _ _ newQuantity => ∀ q ∈ newQuantity, 0 < q

/-! ### Matching -/

namespace Match

variable {k k' : Match P} {e : Entry P} {others : List (Order P)} {id : ℕ}

/-- A fill adds its quantity to the two orders of its trade. -/
lemma executed_fill : executed (k.fill e).1.trades id = executed k.trades id +
    if id = k.incoming.orderId ∨ id = e.orderId then min k.incoming.remainingQty e.remainingQty
    else 0 := by
  have hsnoc : ∀ t, Tally.balance (Trade.executed id) (k.trades ++ [t])
      = Tally.balance (Trade.executed id) k.trades + t.executed id := Tally.balance_snoc _
  have hparties : ((k.trade e).buyOrderId = id ∨ (k.trade e).sellOrderId = id) ↔
      (id = k.incoming.orderId ∨ id = e.orderId) := by
    rw [trade]
    cases k.incoming.side with
    | buy => exact or_congr eq_comm eq_comm
    | sell => exact or_comm.trans (or_congr eq_comm eq_comm)
  rw [executed, executed, show (k.fill e).1.trades = k.trades ++ [k.trade e] from rfl, hsnoc]
  exact congrArg _ (if_congr hparties rfl rfl)

lemma executed_fill_of_ne (hincoming : id ≠ k.incoming.orderId) (he : id ≠ e.orderId) :
    executed (k.fill e).1.trades id = executed k.trades id := by
  rw [executed_fill, if_neg (by tauto), add_zero]

/-- The accounts of the orders in the list, of the order in hand, and of others that are in no
book. -/
structure Accounts (k : Match P) (others : List (Order P)) : Prop where
  listed : ∀ o ∈ k.orders, o.Accounted k.trades
  incoming : k.incoming.Accounted k.trades
  outside : ∀ o ∈ others, o.Accounted k.trades
  new : ∀ o ∈ k.orders, o.orderId ≠ k.incoming.orderId
  apart : ∀ o ∈ others, o.orderId ≠ k.incoming.orderId ∧ ∀ a ∈ k.orders, a.orderId ≠ o.orderId

/-- Nothing is open that should not be, and all ids have been given out. -/
structure Regular (k : Match P) : Prop where
  signed : ∀ o ∈ k.orders, o.Signed
  nonneg : 0 ≤ k.incoming.remainingQty
  incoming : k.incoming.orderId < k.nextOrderId
  trades : ∀ t ∈ k.trades, t.buyOrderId < k.nextOrderId ∧ t.sellOrderId < k.nextOrderId

variable [LinearOrder P] {symbolIdx : ℕ} {s : Side} {l : List (Entry P)}

lemma Accounts.fill (h : k.Accounts others) (hk : (k.setEntries symbolIdx s l).InStep)
    (he : e ∈ l) : (k.fill e).1.Accounts others := by
  obtain ⟨o, ho, hopen, -, -, rfl, as, bs, horders, horders'⟩ := hk.fill_orders he
  have hlisted : ∀ a ∈ (k.fill o.entry).1.orders,
      a = o.fill k.incoming.remainingQty ∨ a ∈ k.orders ∧ a.orderId ≠ o.orderId := by
    rw [horders, horders']
    exact fun a ha => (mem_replaced_iff (horders ▸ hk.nodup)).mp ha
  constructor
  case listed =>
    intro a ha
    rcases hlisted a ha with rfl | ⟨ha, hne⟩
    · have hacc : o.quantity - o.remainingQty = executed k.trades o.orderId := h.listed o ho
      show o.quantity - (o.remainingQty - min k.incoming.remainingQty o.remainingQty)
        = executed (k.fill o.entry).1.trades o.orderId
      rw [executed_fill, if_pos (.inr rfl), ← hacc]
      exact sub_sub_eq_add_sub _ _ _ |>.trans (add_sub_right_comm _ _ _)
    · rw [Order.Accounted, executed_fill_of_ne (h.new a ha) hne]
      exact h.listed a ha
  case incoming =>
    have hacc : k.incoming.quantity - k.incoming.remainingQty
      = executed k.trades k.incoming.orderId := h.incoming
    show k.incoming.quantity - (k.incoming.remainingQty - min k.incoming.remainingQty
      o.remainingQty) = executed (k.fill o.entry).1.trades k.incoming.orderId
    rw [executed_fill, if_pos (.inl rfl), ← hacc]
    exact sub_sub_eq_add_sub _ _ _ |>.trans (add_sub_right_comm _ _ _)
  case outside =>
    intro a ha
    obtain ⟨hincoming, hlisted⟩ := h.apart a ha
    rw [Order.Accounted, executed_fill_of_ne hincoming (hlisted o ho).symm]
    exact h.outside a ha
  case new =>
    intro a ha
    obtain ⟨a₀, ha₀, heq⟩ := (fill_frame k o.entry).exists_old ha
    exact heq ▸ h.new a₀ ha₀
  case apart =>
    intro a ha
    obtain ⟨hincoming, hlisted⟩ := h.apart a ha
    refine ⟨hincoming, fun b hb => ?_⟩
    obtain ⟨b₀, hb₀, heq⟩ := (fill_frame k o.entry).exists_old hb
    exact heq ▸ hlisted b₀ hb₀

lemma Regular.fill (h : k.Regular) (hk : (k.setEntries symbolIdx s l).InStep) (he : e ∈ l) :
    (k.fill e).1.Regular := by
  obtain ⟨o, ho, hopen, -, -, rfl, as, bs, horders, horders'⟩ := hk.fill_orders he
  have hid : o.orderId < k.nextOrderId := hk.fresh o ho
  constructor
  case signed =>
    intro a ha
    rw [horders'] at ha
    have hcases : a = o.fill k.incoming.remainingQty ∨ a ∈ k.orders := by
      rw [horders]
      simp only [List.mem_append, List.mem_cons] at ha ⊢
      tauto
    rcases hcases with rfl | ha
    · have hnonneg : 0 ≤ o.remainingQty - min k.incoming.remainingQty o.remainingQty := by omega
      refine ⟨hnonneg, fun hopen' => ?_⟩
      have hne : o.remainingQty - min k.incoming.remainingQty o.remainingQty ≠ 0 := by
        intro hz
        have hfilled : (o.fill k.incoming.remainingQty).status = .filled := if_pos hz
        simp [Order.isOpen, hfilled] at hopen'
      exact lt_of_le_of_ne hnonneg hne.symm
    · exact h.signed a ha
  case nonneg =>
    show 0 ≤ k.incoming.remainingQty - min k.incoming.remainingQty o.remainingQty
    omega
  case incoming => exact h.incoming
  case trades =>
    intro t ht
    rcases List.mem_append.mp ht with ht | ht
    · exact h.trades t ht
    · obtain rfl := List.mem_singleton.mp ht
      rw [Match.trade]
      constructor <;> split
      · exact h.incoming
      · exact hid
      · exact hid
      · exact h.incoming

end Match

namespace MatchingEngine

variable [LinearOrder P] {m m' : MatchingEngine P} {incoming : Order P} {others : List (Order P)}

/-- The loop keeps what each fill keeps. -/
lemma sweepOpposite_keeps {I : Match P → Prop} (hm : m.InStep) (hI : I ⟨m, incoming, []⟩)
    (hfill : ∀ (k : Match P) e l, 0 < k.incoming.remainingQty →
      (k.setEntries incoming.symbolIdx incoming.side.opposite l).InStep →
        e ∈ l → I k → I (k.fill e).1)
    (hcongr : ∀ k books, I k → I { k with books }) : I (m.sweepOpposite incoming) := by
  refine hcongr _ _ (Sweep.sweep_invariant Match.visit (P := fun (k : Match P) l =>
    (k.setEntries incoming.symbolIdx incoming.side.opposite l).InStep ∧ I k) ?_ ⟨?_, hI⟩).2
  · rintro k done e todo k' left ⟨hk, hIk⟩ hv
    have hpos := (Match.pos_of_visit hv).1
    obtain ⟨rfl, rfl⟩ := Match.fill_of_visit hv
    exact ⟨hk.fill, hfill k e _ hpos hk (by simp) hIk⟩
  · rwa [setEntries_entries]

lemma matchIncoming_keeps {I : Match P → Prop} (hm : m.InStep) (hI : I ⟨m, incoming, []⟩)
    (hfill : ∀ (k : Match P) e l, 0 < k.incoming.remainingQty →
      (k.setEntries incoming.symbolIdx incoming.side.opposite l).InStep →
        e ∈ l → I k → I (k.fill e).1)
    (hcongr : ∀ k books, I k → I { k with books })
    (hstatus : ∀ k status, I k → I { k with incoming := { k.incoming with status } }) :
    I (m.matchIncoming incoming) := by
  rw [matchIncoming]
  split
  · exact hstatus ⟨m, incoming, []⟩ .rejected hI
  · exact sweepOpposite_keeps hm hI hfill hcongr

lemma matchIncoming_accounts (hm : m.InStep) (h : Match.Accounts ⟨m, incoming, []⟩ others) :
    (m.matchIncoming incoming).Accounts others :=
  matchIncoming_keeps (I := fun k => k.Accounts others) hm h (fun _ _ _ _ hk he h => h.fill hk he)
    (fun _ _ h => ⟨h.listed, h.incoming, h.outside, h.new, h.apart⟩)
    fun _ _ h => ⟨h.listed, h.incoming, h.outside, h.new, h.apart⟩

lemma matchIncoming_regular (hm : m.InStep) (h : Match.Regular ⟨m, incoming, []⟩) :
    (m.matchIncoming incoming).Regular :=
  matchIncoming_keeps (I := Match.Regular) hm h (fun _ _ _ _ hk he h => h.fill hk he)
    (fun _ _ h => ⟨h.signed, h.nonneg, h.incoming, h.trades⟩)
    fun _ _ h => ⟨h.signed, h.nonneg, h.incoming, h.trades⟩

/-! ### What should hold -/

/-- The accounts of all orders: those in the list, and those that were returned and came to no
book. -/
structure Accounted (m : MatchingEngine P) (returned : List (Order P)) : Prop where
  listed : ∀ o ∈ m.orders, o.Accounted m.trades
  returned : ∀ o ∈ returned, (∀ a ∈ m.orders, a.orderId ≠ o.orderId) → o.Accounted m.trades

/-- No request executes an order for more than its quantity, unless that much had been executed
before. -/
def Bounded (m m' : MatchingEngine P) : Prop :=
  ∀ o ∈ m.orders, executed m'.trades o.orderId ≤ max o.quantity (executed m.trades o.orderId)

section

variable [Zero P] (symbols : List ℕ)

/-- The report on an amend has the quantity that the order has executed. -/
def Reported (m : MatchingEngine P) : Request P → Prop
  | .amend orderId newPrice newQuantity => ∀ r, m.amendOrder orderId newPrice newQuantity = some r →
      FIXSession.cumQty r.2 = executed r.1.trades orderId
  | _ => True

/-- One request, with the order it returns. -/
def answer (m : MatchingEngine P) (request : Request P) : MatchingEngine P × List (Order P) :=
  ((m.handle symbols request).1, (m.handle symbols request).2.toList)

end

/-- An amend gives no new quantity to an open order that has executed something. -/
def Untouched (m : MatchingEngine P) : Request P → Prop
  | .amend orderId _ (some _) => ∀ o ∈ m.orders, o.orderId = orderId → o.isOpen = true →
      o.remainingQty = o.quantity
  | _ => True

/-! ### Requests -/

/-- The invariant of runs with positive quantities. -/
structure Regular (m : MatchingEngine P) (returned : List (Order P)) : Prop where
  inStep : m.InStep
  signed : ∀ o ∈ m.orders, o.Signed
  trades : ∀ t ∈ m.trades, t.buyOrderId < m.nextOrderId ∧ t.sellOrderId < m.nextOrderId
  returned : ∀ o ∈ returned, o.orderId < m.nextOrderId

section

variable {returned : List (Order P)} {o o' : Order P} {as bs : List (Order P)}

omit [LinearOrder P] in
lemma executed_eq_zero {trades : List (Trade P)} {id : ℕ}
    (h : ∀ t ∈ trades, t.buyOrderId ≠ id ∧ t.sellOrderId ≠ id) : executed trades id = 0 :=
  Tally.balance_eq_zero fun t ht => if_neg (not_or.mpr (h t ht))

/-- The match of a new order, from the invariant. -/
lemma Regular.matchIncoming (h : m.Regular returned) (symbolIdx : ℕ) {r : Submission P}
    (hr : 0 < r.quantity) : ({ m with nextOrderId := m.nextOrderId + 1 }.matchIncoming
      (r.order symbolIdx m.nextOrderId)).Regular := by
  refine matchIncoming_regular (h.inStep.congr rfl (Nat.le_succ _) rfl) ⟨h.signed, hr.le, ?_, ?_⟩
  · exact Nat.lt_succ_self _
  · exact fun t ht => ⟨(h.trades t ht).1.trans (Nat.lt_succ_self _),
      (h.trades t ht).2.trans (Nat.lt_succ_self _)⟩

lemma Accounted.matchIncoming (h : m.Accounted returned) (hm : m.Regular returned)
    (symbolIdx : ℕ) (r : Submission P) : ({ m with nextOrderId := m.nextOrderId + 1 }.matchIncoming
      (r.order symbolIdx m.nextOrderId)).Accounts
        (returned.filter fun o => ∀ a ∈ m.orders, a.orderId ≠ o.orderId) := by
  refine matchIncoming_accounts (hm.inStep.congr rfl (Nat.le_succ _) rfl) ⟨h.listed, ?_, ?_, ?_, ?_⟩
  · exact (sub_self r.quantity).trans (executed_eq_zero fun t ht =>
      ⟨(hm.trades t ht).1.ne, (hm.trades t ht).2.ne⟩).symm
  · intro o ho
    obtain ⟨ho, hnot⟩ := List.mem_filter.mp ho
    exact h.returned o ho (of_decide_eq_true hnot)
  · exact fun o ho => (hm.inStep.fresh o ho).ne
  · intro o ho
    obtain ⟨ho, hnot⟩ := List.mem_filter.mp ho
    exact ⟨(hm.returned o ho).ne, of_decide_eq_true hnot⟩

/-- One order of the list changes, and no trade is made. -/
lemma Regular.of_change (h : m.Regular returned) (hinStep : m'.InStep)
    (horders : m.orders = as ++ o :: bs) (horders' : m'.orders = as ++ o' :: bs)
    (hid : o'.orderId = o.orderId) (htrades : m'.trades = m.trades)
    (hnext : m'.nextOrderId = m.nextOrderId) (hsigned : o'.Signed) :
    m'.Regular (returned ++ [o']) := by
  refine ⟨hinStep, ?_, ?_, ?_⟩
  · have hall := h.signed
    rw [horders] at hall
    rw [horders']
    intro a ha
    rcases List.mem_append.mp ha with ha | ha
    · exact hall a (List.mem_append_left _ ha)
    · rcases List.mem_cons.mp ha with rfl | ha
      · exact hsigned
      · exact hall a (List.mem_append_right _ (List.mem_cons_of_mem _ ha))
  · rw [htrades, hnext]
    exact h.trades
  · intro a ha
    rw [hnext]
    rcases List.mem_append.mp ha with ha | ha
    · exact h.returned a ha
    · rw [List.mem_singleton.mp ha, hid]
      exact h.inStep.fresh o (horders ▸ by simp)

omit [LinearOrder P] in
lemma Accounted.of_change_iff (h : m.Accounted returned)
    (horders : m.orders = as ++ o :: bs) (horders' : m'.orders = as ++ o' :: bs)
    (hid : o'.orderId = o.orderId) (htrades : m'.trades = m.trades) :
    m'.Accounted (returned ++ [o']) ↔ o'.Accounted m.trades := by
  constructor
  · intro hafter
    have hacc := hafter.listed o' (horders' ▸ by simp)
    rwa [htrades] at hacc
  · intro hacc
    have hlisted := h.listed
    rw [horders] at hlisted
    constructor
    · rw [horders', htrades]
      intro a ha
      rcases List.mem_append.mp ha with ha | ha
      · exact hlisted a (List.mem_append_left _ ha)
      · rcases List.mem_cons.mp ha with rfl | ha
        · exact hacc
        · exact hlisted a (List.mem_append_right _ (List.mem_cons_of_mem _ ha))
    · intro a ha hnot
      rw [htrades]
      rcases List.mem_append.mp ha with ha | ha
      · refine h.returned a ha fun b hb => ?_
        rw [horders] at hb
        rw [horders'] at hnot
        rcases List.mem_append.mp hb with hb | hb
        · exact hnot b (List.mem_append_left _ hb)
        · rcases List.mem_cons.mp hb with rfl | hb
          · exact hid ▸ hnot o' (by simp)
          · exact hnot b (List.mem_append_right _ (List.mem_cons_of_mem _ hb))
      · exact absurd (congrArg Order.orderId (List.mem_singleton.mp ha)).symm
          (hnot o' (horders' ▸ by simp))

/-- An amend keeps the account of its order exactly if it does not touch what was executed. -/
lemma Accounted.accounted_amend_iff (h : m.Accounted returned) (hm : m.InStep) (ho : o ∈ m.orders)
    {id : ℕ} (hid : o.orderId = id) (hopen : o.isOpen = true) (newPrice : Option P)
    (newQuantity : Option ℤ) : (o.amend newPrice newQuantity).Accounted m.trades ↔
      m.Untouched (.amend id newPrice newQuantity) := by
  have hacc : o.quantity - o.remainingQty = executed m.trades o.orderId := h.listed o ho
  cases newQuantity with
  | none => exact iff_of_true hacc trivial
  | some q =>
    show q - q = executed m.trades o.orderId ↔ _
    rw [← hacc, Untouched]
    constructor
    · intro heq a ha hida _
      obtain rfl := hm.eq_of_orderId ha ho (hida.trans hid.symm)
      omega
    · intro huntouched
      have hsame := huntouched o ho hid hopen
      omega

variable [Zero P]

lemma Regular.submitOrder (h : m.Regular returned) (symbolIdx : ℕ) {r : Submission P}
    (hr : 0 < r.quantity) : (m.submitOrder symbolIdx r).1.Regular
      (returned ++ [(m.submitOrder symbolIdx r).2]) := by
  have hinStep := h.inStep.submitOrder symbolIdx r
  have hk := h.matchIncoming symbolIdx hr
  set entered : MatchingEngine P := { m with nextOrderId := m.nextOrderId + 1 } with hentered
  set k := entered.matchIncoming (r.order symbolIdx m.nextOrderId) with hkdef
  have hsigned : ∀ o ∈ k.settle.orders, o.Signed := by
    cases k.settles with
    | done status hk' =>
      rw [hk']
      exact hk.signed
    | rests hpos hstatus hlimit hk' =>
      rw [hk']
      intro o ho
      rcases List.mem_append.mp ho with ho | ho
      · exact hk.signed o ho
      · rw [List.mem_singleton.mp ho]
        exact ⟨hk.nonneg, fun _ => hpos⟩
  have hsettled := k.settle_frame
  refine ⟨hinStep, hsigned, ?_, ?_⟩
  · show ∀ t ∈ k.settle.trades, t.buyOrderId < k.settle.nextOrderId ∧ _ < k.settle.nextOrderId
    rw [hsettled.trades, hsettled.nextOrderId]
    exact hk.trades
  · intro o ho
    rcases List.mem_append.mp ho with ho | ho
    · rw [(m.submitOrder_frame symbolIdx r).1]
      exact (h.returned o ho).trans (Nat.lt_succ_self _)
    · rw [List.mem_singleton.mp ho]
      show k.settle.incoming.orderId < k.settle.nextOrderId
      rw [hsettled.orderId, hsettled.nextOrderId]
      exact hk.incoming

/-- A new order keeps the accounts. -/
lemma Accounted.submitOrder (h : m.Accounted returned) (hm : m.Regular returned)
    (symbolIdx : ℕ) (r : Submission P) : (m.submitOrder symbolIdx r).1.Accounted
      (returned ++ [(m.submitOrder symbolIdx r).2]) := by
  have hk := h.matchIncoming hm symbolIdx r
  set entered : MatchingEngine P := { m with nextOrderId := m.nextOrderId + 1 } with hentered
  set k := entered.matchIncoming (r.order symbolIdx m.nextOrderId) with hkdef
  have hframe : Match.Frame ⟨entered, r.order symbolIdx m.nextOrderId, []⟩ k :=
    matchIncoming_frame _ _
  have hsettled := k.settle_frame
  have hincoming : k.settle.incoming.Accounted k.trades := by
    rw [hsettled.incoming]
    exact hk.incoming
  constructor
  · show ∀ o ∈ k.settle.orders, o.Accounted k.settle.trades
    rw [hsettled.trades]
    intro o ho
    rcases hsettled.listed o ho with ho | rfl
    · exact hk.listed o ho
    · exact hincoming
  · intro o ho hnot
    show o.Accounted k.settle.trades
    rw [hsettled.trades]
    rcases List.mem_append.mp ho with ho | ho
    · refine hk.outside o (List.mem_filter.mpr ⟨ho, decide_eq_true fun a ha => ?_⟩)
      obtain ⟨b, hb, heq⟩ := hframe.exists_new ha
      exact heq ▸ hnot b (hsettled.kept b hb)
    · rw [List.mem_singleton.mp ho]
      exact hincoming

/-- A new order executes none for more than its quantity. -/
lemma bounded_submitOrder (symbolIdx : ℕ) (r : Submission P)
    (hacc : (m.submitOrder symbolIdx r).1.Accounted returned)
    (hsigned : ∀ o ∈ (m.submitOrder symbolIdx r).1.orders, o.Signed) :
    m.Bounded (m.submitOrder symbolIdx r).1 := by
  set entered : MatchingEngine P := { m with nextOrderId := m.nextOrderId + 1 } with hentered
  set k := entered.matchIncoming (r.order symbolIdx m.nextOrderId) with hkdef
  have hquantities := (matchIncoming_frame entered (r.order symbolIdx m.nextOrderId)).quantities
  have hmem : ∀ o ∈ k.orders, o ∈ (m.submitOrder symbolIdx r).1.orders := k.settle_frame.kept
  intro o ho
  have hpair : (o.orderId, o.quantity) ∈ k.orders.map fun o => (o.orderId, o.quantity) :=
    hquantities ▸ List.mem_map_of_mem (f := fun o : Order P => (o.orderId, o.quantity)) ho
  obtain ⟨o', ho', heq⟩ := List.mem_map.mp hpair
  obtain ⟨hid, hquantity⟩ := Prod.mk.inj heq
  have hexecuted := hacc.listed o' (hmem o' ho')
  have hnonneg := (hsigned o' (hmem o' ho')).1
  rw [Order.Accounted, hid, hquantity] at hexecuted
  exact le_max_of_le_left (by omega)

/-- What a cancel changes in the list. -/
lemma orders_of_cancelOrder (hm : m.InStep) {id : ℕ} {r : MatchingEngine P × Order P}
    (hr : m.cancelOrder id = some r) : ∃ o as bs, m.orders = as ++ o :: bs ∧
      r.1.orders = as ++ r.2 :: bs ∧ r.2 = { o with status := .cancelled } := by
  obtain ⟨o, ho, rfl, hopen, rfl⟩ := exists_of_cancelOrder hr
  obtain ⟨as, bs, horders, horders', -⟩ := cancelled_split hm.nodup ho hopen
  exact ⟨o, as, bs, horders, horders', rfl⟩

lemma Regular.handle (h : m.Regular returned) (symbols : List ℕ) {request : Request P}
    (hpos : request.Positive) : (m.handle symbols request).1.Regular
      (returned ++ (m.handle symbols request).2.toList) := by
  cases request with
  | submit symbolIdx r =>
    rw [MatchingEngine.handle]
    split
    · exact h.submitOrder symbolIdx hpos
    · rw [Option.toList_none, List.append_nil]
      refine ⟨h.inStep.congr rfl (Nat.le_succ _) rfl, h.signed, fun t ht => ?_, fun o ho => ?_⟩
      · exact ⟨(h.trades t ht).1.trans (Nat.lt_succ_self _),
          (h.trades t ht).2.trans (Nat.lt_succ_self _)⟩
      · exact (h.returned o ho).trans (Nat.lt_succ_self _)
  | cancel id =>
    rw [MatchingEngine.handle]
    cases hr : m.cancelOrder id with
    | none => exact (List.append_nil returned).symm ▸ h
    | some r =>
      obtain ⟨hinStep, -, -, hnext, htrades, -, -⟩ := h.inStep.cancelOrder_spec hr
      obtain ⟨o, as, bs, horders, horders', hr2⟩ := orders_of_cancelOrder h.inStep hr
      have hsigned : r.2.Signed := by
        rw [hr2]
        exact ⟨(h.signed o (horders ▸ by simp)).1, fun hopen => by simp [Order.isOpen] at hopen⟩
      exact h.of_change hinStep horders horders' (by rw [hr2]) htrades hnext hsigned
  | amend id newPrice newQuantity =>
    rw [MatchingEngine.handle]
    cases hr : m.amendOrder id newPrice newQuantity with
    | none => exact (List.append_nil returned).symm ▸ h
    | some r =>
      obtain ⟨o, ho, -, hopen, hr2, hinStep, hnext, htrades, ⟨as, bs, horders, horders'⟩, -⟩ :=
        h.inStep.amendOrder_spec hr
      have hleft : 0 < r.2.remainingQty := by
        rw [hr2]
        cases newQuantity with
        | none => exact (h.signed o ho).2 hopen
        | some q => exact hpos q rfl
      exact h.of_change hinStep horders horders' (by rw [hr2]; rfl) htrades hnext
        ⟨hleft.le, fun _ => hleft⟩

/-- One request. -/
lemma Accounted.handle_iff (h : m.Accounted returned) (hm : m.Regular returned)
    (symbols : List ℕ) {request : Request P} (hpos : request.Positive) :
    (m.handle symbols request).1.Accounted (returned ++ (m.handle symbols request).2.toList) ∧
        (m.Bounded (m.handle symbols request).1 ∧ m.Reported request) ↔
      m.Untouched request := by
  have hregular := hm.handle symbols hpos
  have hsame : ∀ m' : MatchingEngine P, m'.trades = m.trades → m.Bounded m' := by
    intro m' htrades o _
    rw [htrades]
    exact le_max_right _ _
  cases request with
  | submit symbolIdx r =>
    simp only [Reported, Untouched, and_true, iff_true]
    rw [MatchingEngine.handle] at hregular ⊢
    split
    · rename_i hsymbol
      rw [if_pos hsymbol] at hregular
      have hacc := h.submitOrder hm symbolIdx r
      exact ⟨hacc, bounded_submitOrder symbolIdx r hacc hregular.signed⟩
    · rw [Option.toList_none, List.append_nil]
      exact ⟨⟨h.listed, h.returned⟩, hsame _ rfl⟩
  | cancel id =>
    simp only [Reported, Untouched, and_true, iff_true]
    rw [MatchingEngine.handle]
    cases hr : m.cancelOrder id with
    | none => exact ⟨(List.append_nil returned).symm ▸ h, hsame _ rfl⟩
    | some r =>
      obtain ⟨-, -, -, -, htrades, -, -⟩ := hm.inStep.cancelOrder_spec hr
      obtain ⟨o, as, bs, horders, horders', hr2⟩ := orders_of_cancelOrder hm.inStep hr
      refine ⟨(h.of_change_iff horders horders' (by rw [hr2]) htrades).mpr ?_, hsame _ htrades⟩
      rw [hr2]
      exact h.listed o (horders ▸ by simp)
  | amend id newPrice newQuantity =>
    rw [MatchingEngine.handle, Reported]
    cases hr : m.amendOrder id newPrice newQuantity with
    | none =>
      refine iff_of_true ⟨(List.append_nil returned).symm ▸ h, hsame _ rfl, by simp⟩ ?_
      cases newQuantity with
      | none => trivial
      | some q =>
        intro o ho hid hopen
        obtain ⟨r, hsome⟩ := exists_amendOrder ho hid hopen newPrice (some q)
        cases hr.symm.trans hsome
    | some r =>
      obtain ⟨o, ho, hid, hopen, hr2, -, -, htrades, ⟨as, bs, horders, horders'⟩, -⟩ :=
        hm.inStep.amendOrder_spec hr
      have hid' : r.2.orderId = o.orderId := by rw [hr2]; rfl
      rw [← h.accounted_amend_iff hm.inStep ho hid hopen newPrice newQuantity, ← hr2,
        ← h.of_change_iff horders horders' hid' htrades]
      refine and_iff_left_of_imp fun hafter => ⟨hsame _ htrades, ?_⟩
      rintro _ ⟨⟩
      have hacc := hafter.listed r.2 (horders' ▸ by simp)
      rwa [Order.Accounted, hid', hid] at hacc

/-- In every run with positive quantities, executed quantities are accounted for, no order is
executed for more than its quantity, and the reports on amends are right, exactly if no amend gives
a new quantity to an order that has executed something. -/
theorem run_accounted_iff (symbols : List ℕ) (requests : List (Request P))
    (hpos : ∀ request ∈ requests, request.Positive) :
    Machine.Throughout (Machine.recording (answer symbols)) (fun s => s.1.Accounted s.2)
        ({}, []) requests ∧
      Machine.Along (Machine.recording (answer symbols)) (fun s request =>
        s.1.Bounded (s.1.handle symbols request).1 ∧ s.1.Reported request) ({}, []) requests ↔
      Machine.Along (Machine.recording (answer symbols)) (fun s request => s.1.Untouched request)
        (({}, []) : MatchingEngine P × List (Order P)) requests := by
  refine Machine.throughout_along_iff (A := fun _ request => request.Positive)
    (I := fun s => s.1.Regular s.2)
    (fun s request hpos h => h.handle symbols hpos)
    (fun s request hpos hm h => h.handle_iff hm symbols hpos)
    (Machine.along_of_forall hpos) ⟨.empty, ?_, ?_, ?_⟩ ⟨?_, ?_⟩ <;> simp

/-- A bid for 10, of which 4 are taken, and an amend of it to 6. -/
def amendAfterFill : List (Request ℤ) :=
  [.submit 1 ⟨.buy, .limit, 100, 10, .day, []⟩, .submit 1 ⟨.sell, .limit, 100, 4, .day, []⟩,
    .amend 1000 none (some 6)]

theorem run_accounted_amendAfterFill :
    (∀ request ∈ amendAfterFill, request.Positive) ∧
      (Machine.Throughout (Machine.recording (answer [1])) (fun s => s.1.Accounted s.2)
          ({}, []) amendAfterFill ∧
        Machine.Along (Machine.recording (answer [1])) (fun s request =>
          s.1.Bounded (s.1.handle [1] request).1 ∧ s.1.Reported request) ({}, [])
          amendAfterFill ↔
      Machine.Along (Machine.recording (answer [1])) (fun s request => s.1.Untouched request)
        (({}, []) : MatchingEngine ℤ × List (Order ℤ)) amendAfterFill) := by
  have hpos : ∀ request ∈ amendAfterFill, request.Positive := by
    simp [amendAfterFill, Request.Positive]
  exact ⟨hpos, run_accounted_iff [1] amendAfterFill hpos⟩

/-- After the amend 6 of 6 are open of an order that has executed 4. -/
theorem not_accounted_amendAfterFill : ¬Machine.Throughout (Machine.recording (answer [1]))
    (fun s => s.1.Accounted s.2) (({}, []) : MatchingEngine ℤ × List (Order ℤ)) amendAfterFill := by
  intro h
  have hacc := h.2.2.2.listed
    ⟨1000, "D-1000".toList, 1, .buy, .limit, 100, 6, 6, .partiallyFilled, .day⟩ (by decide)
  exact absurd hacc (by decide)

end

end MatchingEngine

end EuNEx.Dashboard
