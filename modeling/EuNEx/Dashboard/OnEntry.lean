import EuNEx.Dashboard.Submitted
import Mathlib.Algebra.Order.BigOperators.Group.List

/-!
# Trades on entry

The ids grow, so of the two orders of a trade the later one has made it when it entered, and the
earlier one has been met in its book. What an order has executed is what it has executed on entry
and what later orders have taken from it.
-/

namespace EuNEx.Dashboard

variable {P : Type*}

namespace Trade

variable (t : Trade P)

/-- The order that has made the trade when it entered. -/
def later : ℕ := max t.buyOrderId t.sellOrderId

/-- The order that has been met. -/
def earlier : ℕ := min t.buyOrderId t.sellOrderId

end Trade

/-- What an order has executed when it entered. -/
def entered (trades : List (Trade P)) (orderId : ℕ) : ℤ :=
  Tally.balance (fun t => if t.later = orderId then t.quantity else 0) trades

/-- What later orders have taken from it. -/
def met (trades : List (Trade P)) (orderId : ℕ) : ℤ :=
  Tally.balance (fun t => if t.earlier = orderId then t.quantity else 0) trades

/-- No later order has traded with this one. -/
def Unmet (trades : List (Trade P)) (orderId : ℕ) : Prop := ∀ t ∈ trades, t.earlier ≠ orderId

/-- As long as nothing was taken from an order, it shows what it has executed on entry, or nothing
after an amend. -/
def Order.Shows (trades : List (Trade P)) (o : Order P) : Prop :=
  Unmet trades o.orderId →
    o.quantity - o.remainingQty = 0 ∨ o.quantity - o.remainingQty = entered trades o.orderId

/-- What is said of an open order: also that what was taken from it is positive. -/
structure Order.Lasts (trades : List (Trade P)) (o : Order P) : Prop where
  positive : ∀ t ∈ trades, t.earlier = o.orderId → 0 < t.quantity
  shows : o.Shows trades

/-- The same of all open orders, and each trade is one of two orders. -/
structure MatchingEngine.Lasting (m : MatchingEngine P) : Prop where
  distinct : ∀ t ∈ m.trades, t.buyOrderId ≠ t.sellOrderId
  lasts : ∀ o ∈ m.orders, o.isOpen = true → o.Lasts m.trades

section

variable {trades ts : List (Trade P)} {t : Trade P} {o : Order P} {e : Entry P} {id : ℕ}

lemma executed_eq (h : ∀ t ∈ trades, t.buyOrderId ≠ t.sellOrderId) :
    executed trades id = entered trades id + met trades id := by
  induction trades using List.reverseRecOn with
  | nil => rfl
  | append_singleton trades t ih =>
    have hne := h t (by simp)
    rw [executed, entered, met, Tally.balance_snoc, Tally.balance_snoc, Tally.balance_snoc,
      add_add_add_comm, ← entered, ← met, ← ih fun t ht => h t (by simp [ht])]
    refine congrArg _ ?_
    rw [Trade.executed, Trade.later, Trade.earlier]
    split_ifs <;> omega

lemma Unmet.met_eq_zero (h : Unmet trades id) : met trades id = 0 :=
  Tally.balance_eq_zero fun t ht => if_neg (h t ht)

lemma Unmet.executed_eq (h : Unmet trades id) (hne : ∀ t ∈ trades, t.buyOrderId ≠ t.sellOrderId) :
    executed trades id = entered trades id := by
  rw [Dashboard.executed_eq hne, h.met_eq_zero, add_zero]

lemma met_append : met (trades ++ ts) id = met trades id + met ts id := Tally.balance_append ..

lemma met_nonneg (h : ∀ t ∈ trades, t.earlier = id → 0 < t.quantity) : 0 ≤ met trades id := by
  refine List.sum_nonneg fun x hx => ?_
  obtain ⟨t, ht, rfl⟩ := List.mem_map.mp hx
  split
  · exact (h t ht ‹_›).le
  · exact le_rfl

/-- What is taken from an open order adds up. -/
lemma met_pos (hpos : ∀ t ∈ trades, t.earlier = id → 0 < t.quantity) (h : ¬Unmet trades id) :
    0 < met trades id := by
  obtain ⟨t, ht, heq⟩ : ∃ t ∈ trades, t.earlier = id := by
    by_contra hnone
    exact h fun t ht heq => hnone ⟨t, ht, heq⟩
  obtain ⟨pre, post, rfl⟩ := List.append_of_mem ht
  have hone : met [t] id = t.quantity := (Tally.balance_snoc [] t).trans (by simp [heq])
  have hquantity := hpos t ht heq
  have hpre : 0 ≤ met pre id := met_nonneg fun t ht => hpos t (by simp [ht])
  have hpost : 0 ≤ met post id := met_nonneg fun t ht => hpos t (by simp [ht])
  rw [← List.singleton_append, met_append, met_append, hone]
  omega

lemma entered_append_of_ne (h : ∀ t ∈ ts, t.later ≠ id) :
    entered (trades ++ ts) id = entered trades id := by
  rw [entered, Tally.balance_append, Tally.balance_eq_zero fun t ht => if_neg (h t ht), add_zero]
  rfl

lemma unmet_append : Unmet (trades ++ ts) id ↔ Unmet trades id ∧ Unmet ts id := by
  simp only [Unmet, List.mem_append, or_imp, forall_and]

/-- The trade of an order with the entry of an earlier one. -/
lemma Trade.IsWith.parties (h : t.IsWith o e) (hlt : e.orderId < o.orderId) :
    t.later = o.orderId ∧ t.earlier = e.orderId := by
  rw [Trade.later, Trade.earlier, h.buyOrderId, h.sellOrderId]
  split_ifs <;> omega

/-- Trades that the order has no part in. -/
lemma Order.Lasts.append (h : o.Lasts trades) (hlater : ∀ t ∈ ts, t.later ≠ o.orderId)
    (hearlier : ∀ t ∈ ts, t.earlier ≠ o.orderId) : o.Lasts (trades ++ ts) where
  positive t ht heq := by
    rcases List.mem_append.mp ht with ht | ht
    · exact h.positive t ht heq
    · exact absurd heq (hearlier t ht)
  shows hunmet := by
    rw [entered_append_of_ne hlater]
    exact h.shows (unmet_append.mp hunmet).1

end

/-! ### Matching -/

/-- The same of the loop, for an order in hand that is later than all others. -/
structure Match.Lasting (k : Match P) : Prop extends k.toMatchingEngine.Lasting where
  earlier : ∀ o ∈ k.orders, o.orderId < k.incoming.orderId

lemma Match.isWith_trade (k : Match P) (e : Entry P) : (k.trade e).IsWith k.incoming e :=
  ⟨rfl, rfl, rfl⟩

section

variable [LinearOrder P] {k : Match P} {e : Entry P} {symbolIdx : ℕ} {s : Side} {l : List (Entry P)}

/-- A fill that leaves something of the entry takes what the order in hand has. -/
lemma Match.Lasting.fill (h : k.Lasting) (hpos : 0 < k.incoming.remainingQty)
    (hk : (k.setEntries symbolIdx s l).InStep) (he : e ∈ l) : (k.fill e).1.Lasting := by
  obtain ⟨o, ho, hopen, -, -, rfl, as, bs, horders, horders'⟩ := hk.fill_orders he
  obtain ⟨hlater, hearlier⟩ := (k.isWith_trade o.entry).parties (h.earlier o ho)
  have htrades : (k.fill o.entry).1.trades = k.trades ++ [k.trade o.entry] := rfl
  refine ⟨⟨fun t ht => ?_, fun a ha hopena => ?_⟩, fun a ha => ?_⟩
  · rw [htrades, List.mem_append, List.mem_singleton] at ht
    rcases ht with ht | rfl
    · exact h.distinct t ht
    · intro heq
      rw [Trade.later, heq, max_self] at hlater
      rw [Trade.earlier, heq, min_self, hlater] at hearlier
      exact (h.earlier o ho).ne hearlier.symm
  · rw [htrades]
    rw [horders'] at ha
    rcases (mem_replaced_iff (horders ▸ hk.nodup)).mp ha with rfl | ⟨ha, hne⟩
    · have hlasts := h.lasts o ho hopen
      refine ⟨fun t ht heq => ?_, fun hunmet => ?_⟩
      · rcases List.mem_append.mp ht with ht | ht
        · exact hlasts.positive t ht heq
        · rw [List.mem_singleton.mp ht]
          show 0 < min k.incoming.remainingQty o.remainingQty
          have hleft : o.remainingQty - min k.incoming.remainingQty o.remainingQty ≠ 0 := by
            intro hz
            have hfilled : (o.fill k.incoming.remainingQty).status = .filled := if_pos hz
            simp [Order.isOpen, hfilled] at hopena
          omega
      · exact absurd hearlier ((unmet_append.mp hunmet).2 _ (List.mem_singleton_self _))
    · rw [← horders] at ha
      refine (h.lasts a ha hopena).append ?_ ?_ <;> intro t ht <;> rw [List.mem_singleton.mp ht]
      · rw [hlater]
        exact (h.earlier a ha).ne'
      · rw [hearlier]
        exact hne.symm
  · obtain ⟨a₀, ha₀, heq⟩ := (fill_frame k o.entry).exists_old ha
    exact heq ▸ h.earlier a₀ ha₀

end

/-! ### Requests -/

namespace MatchingEngine

variable [LinearOrder P] {m m' : MatchingEngine P} {incoming o o' : Order P}
  {as bs : List (Order P)}

lemma Lasting.matchIncoming (h : m.Lasting) (hm : m.InStep)
    (hid : ∀ o ∈ m.orders, o.orderId < incoming.orderId) : (m.matchIncoming incoming).Lasting :=
  matchIncoming_keeps (I := Match.Lasting) hm ⟨h, hid⟩
    (fun _ _ _ hpos hk he h => h.fill hpos hk he)
    (fun _ _ h => ⟨⟨h.distinct, h.lasts⟩, h.earlier⟩)
    fun _ _ h => ⟨⟨h.distinct, h.lasts⟩, h.earlier⟩

/-- An order changes in the list. -/
lemma Lasting.of_change (h : m.Lasting) (hm : m.InStep) (horders : m.orders = as ++ o :: bs)
    (horders' : m'.orders = as ++ o' :: bs) (htrades : m'.trades = m.trades)
    (ho' : o'.isOpen = true → o'.Lasts m.trades) : m'.Lasting where
  distinct := htrades ▸ h.distinct
  lasts a ha hopen := by
    rw [htrades]
    rw [horders'] at ha
    rcases (mem_replaced_iff (horders ▸ hm.nodup)).mp ha with rfl | ⟨ha, -⟩
    · exact ho' hopen
    · exact h.lasts a (horders ▸ ha) hopen

variable [Zero P] {symbolIdx : ℕ} {r : Submission P}

/-- The trades of a new order. -/
lemma exists_trades_submit (hm : m.InStep) (hbelow : m.TradesBelow) (symbolIdx : ℕ)
    (r : Submission P) : ∃ ts, (m.submitOrder symbolIdx r).1.trades = m.trades ++ ts ∧
      ∀ t ∈ ts, t.later = m.nextOrderId ∧ t.earlier < m.nextOrderId := by
  obtain ⟨ts, htrades, hts⟩ := (submitOrder_answered hm hbelow symbolIdx r).trades
  refine ⟨ts, htrades, fun t ht => ?_⟩
  obtain ⟨e, he, hwith⟩ := hts t ht
  have hlt := hm.lt_of_mem_counterparties he
  obtain ⟨hlater, hearlier⟩ := hwith.parties hlt
  exact ⟨hlater, hearlier ▸ hlt⟩

/-- No order is later than a new one. -/
lemma unmet_submit (hm : m.InStep) (hbelow : m.TradesBelow) (symbolIdx : ℕ) (r : Submission P) :
    Unmet (m.submitOrder symbolIdx r).1.trades m.nextOrderId := by
  obtain ⟨ts, htrades, hts⟩ := exists_trades_submit hm hbelow symbolIdx r
  rw [htrades, unmet_append]
  refine ⟨fun t ht => ?_, fun t ht => (hts t ht).2.ne⟩
  exact (min_lt_of_left_lt (hbelow t ht).1).ne

lemma Lasting.submitOrder (h : m.Lasting) (hm : m.InStep) (hbelow : m.TradesBelow)
    (symbolIdx : ℕ) (r : Submission P) : (m.submitOrder symbolIdx r).1.Lasting := by
  set entered : MatchingEngine P := { m with nextOrderId := m.nextOrderId + 1 } with hentered
  set k := entered.matchIncoming (r.order symbolIdx m.nextOrderId) with hkdef
  have hk : k.Lasting := Lasting.matchIncoming (m := entered) ⟨h.distinct, h.lasts⟩
    (hm.congr rfl (Nat.le_succ _) rfl) hm.fresh
  have hframe := k.settle_frame
  have hdistinct : ∀ t ∈ (m.submitOrder symbolIdx r).1.trades, t.buyOrderId ≠ t.sellOrderId := by
    intro t ht
    exact hk.distinct t (hframe.trades ▸ ht)
  refine ⟨hdistinct, fun a ha hopen => ?_⟩
  rcases hframe.listed a ha with ha | rfl
  · have hlasts := hk.lasts a ha hopen
    rw [← hframe.trades] at hlasts
    exact hlasts
  · have hunmet := unmet_submit hm hbelow symbolIdx r
    have hid : k.settle.incoming.orderId = m.nextOrderId := orderId_submitOrder m symbolIdx r
    have haccounted := (submitOrder_answered hm hbelow symbolIdx r).accounted
    refine ⟨fun t ht heq => absurd (heq.trans hid) (hunmet t ht), fun _ => .inr ?_⟩
    refine Eq.trans haccounted ?_
    rw [show (m.submitOrder symbolIdx r).2.orderId = m.nextOrderId from hid,
      hunmet.executed_eq hdistinct]
    exact congrArg _ hid.symm

/-- An order keeps what is said of it whatever happens. -/
lemma Lasting.handle (h : m.Lasting) (hm : m.InStep) (hbelow : m.TradesBelow) (symbols : List ℕ)
    (request : Request P) : (m.handle symbols request).1.Lasting := by
  cases request with
  | submit symbolIdx r =>
    rw [MatchingEngine.handle]
    split
    · exact h.submitOrder hm hbelow symbolIdx r
    · exact ⟨h.distinct, h.lasts⟩
  | cancel id =>
    rw [MatchingEngine.handle]
    cases hr : m.cancelOrder id with
    | none => exact h
    | some r =>
      obtain ⟨-, -, hstatus, -, htrades, -, -⟩ := hm.cancelOrder_spec hr
      obtain ⟨o, as, bs, horders, horders', -⟩ := orders_of_cancelOrder hm hr
      refine h.of_change hm horders horders' htrades fun hopen => ?_
      simp [Order.isOpen, hstatus] at hopen
  | amend id newPrice newQuantity =>
    rw [MatchingEngine.handle]
    cases hr : m.amendOrder id newPrice newQuantity with
    | none => exact h
    | some r =>
      obtain ⟨o, ho, -, hopen, hr2, -, -, htrades, ⟨as, bs, horders, horders'⟩, -⟩ :=
        hm.amendOrder_spec hr
      refine h.of_change hm horders horders' htrades fun _ => ?_
      obtain ⟨hpositive, hshows⟩ := h.lasts o ho hopen
      rw [hr2]
      cases newQuantity with
      | none => exact ⟨hpositive, hshows⟩
      | some q => exact ⟨hpositive, fun _ => .inl (sub_self q)⟩

/-- What happens later changes nothing about what an order has executed on entry, and does not take
back that a later order has met it. -/
lemma entered_handle (hm : m.InStep) (hbelow : m.TradesBelow) (symbols : List ℕ)
    (request : Request P) {id : ℕ} (hid : id < m.nextOrderId) :
    entered (m.handle symbols request).1.trades id = entered m.trades id ∧
      (Unmet (m.handle symbols request).1.trades id → Unmet m.trades id) := by
  obtain ⟨ts, htrades, hts⟩ := exists_trades_handle hm hbelow symbols request
  rw [htrades]
  refine ⟨entered_append_of_ne fun t ht => ?_, fun h => (unmet_append.mp h).1⟩
  obtain ⟨symbolIdx, r, -, -, e, he, hwith⟩ := hts t ht
  rw [(hwith.parties (hm.lt_of_mem_counterparties he)).1]
  exact hid.ne'

end MatchingEngine

end EuNEx.Dashboard
