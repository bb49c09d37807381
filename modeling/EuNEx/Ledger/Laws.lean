import EuNEx.Ledger.Basic
import Mathlib.Data.List.Range
import Mathlib.Data.Multiset.UnionInter

/-!
# The laws of the ledger

Four invariants of the ledger, each kept by every rule: the ids of live orders, the account of
every order that ever entered, the provenance of trades, and the truth of execution reports.
-/

namespace EuNEx.Ledger

variable {l l' : Ledger}

/-! ### What a rule does -/

/-- The order is the entered one but for what is open and for its status. -/
structure Tracks (e o : Order) : Prop where
  eq : o = { e with remainingQty := o.remainingQty, status := o.status }

namespace Tracks

variable {e o : Order}

lemma orderId (h : Tracks e o) : o.orderId = e.orderId := by rw [h.eq]

lemma clOrdId (h : Tracks e o) : o.clOrdId = e.clOrdId := by rw [h.eq]

lemma quantity (h : Tracks e o) : o.quantity = e.quantity := by rw [h.eq]

lemma price (h : Tracks e o) : o.price = e.price := by rw [h.eq]

lemma ordType (h : Tracks e o) : o.ordType = e.ordType := by rw [h.eq]

lemma trans {o' : Order} (h : Tracks e o) (h' : Tracks o o') : Tracks e o' :=
  ⟨by rw [h'.eq, h.eq]⟩

lemma between {t : Trade} {e' o' : Order} (h : Tracks e o) (h' : Tracks e' o')
    (ht : t.Between o o') : t.Between e e' := by
  rw [h.eq, h'.eq] at ht
  exact ⟨ht.1, ht.2, ht.3, ht.4, ht.5, ht.6, ht.7, ht.8, ht.9, ht.10⟩

end Tracks

/-- All rules but `enter` only shrink live orders and let some go, and the events they append are
about orders that were live. -/
structure Shrinks (l l' : Ledger) : Prop where
  nextOrderId : l'.nextOrderId = l.nextOrderId
  ids : l'.live.map Order.orderId ≤ l.live.map Order.orderId
  tracked : ∀ o' ∈ l'.live, ∃ o ∈ l.live, Tracks o o' ∧ o'.remainingQty ≤ o.remainingQty ∧
    (o.ordType.isStop = true → o'.remainingQty = o.remainingQty)
  log : ∃ evs, l'.log = l.log ++ evs ∧ entryIds evs = [] ∧
    ∀ ev ∈ evs, ∀ id, ev.Concerns id → ∃ o ∈ l.live, o.orderId = id

theorem Step.cases (h : Step l l') :
    Shrinks l l' ∨ ∃ o : Order, o.orderId = l.nextOrderId ∧ o.remainingQty = o.quantity ∧
      l' = { l with
        live := o ::ₘ l.live
        nextOrderId := l.nextOrderId + 1
        log := l.log ++ [.entry o] } := by
  cases h with
  | enter o hid hqty => exact Or.inr ⟨o, hid, hqty, rfl⟩
  | trade buyer seller rest t hlive hterms hbuyer hseller hid hb hs =>
    refine Or.inl ⟨rfl, by simp [hlive], ?_, [.trade t], rfl, rfl, ?_⟩
    · intro o' ho'
      simp only [Multiset.mem_cons] at ho'
      rcases ho' with rfl | rfl | ho'
      · exact ⟨buyer, by simp [hlive], ⟨rfl⟩, Nat.sub_le _ _, by simp [hbuyer]⟩
      · exact ⟨seller, by simp [hlive], ⟨rfl⟩, Nat.sub_le _ _, by simp [hseller]⟩
      · exact ⟨o', by simp [hlive, ho'], ⟨rfl⟩, le_rfl, fun _ => rfl⟩
    · intro ev hev id hm
      obtain rfl := List.mem_singleton.mp hev
      rcases hm with rfl | rfl
      · exact ⟨buyer, by simp [hlive], hterms.buyOrderId.symm⟩
      · exact ⟨seller, by simp [hlive], hterms.sellOrderId.symm⟩
  | report o rest status r hlive hr hopen hrem =>
    refine Or.inl ⟨rfl, by simp [hlive], ?_, [.exec r], rfl, rfl, ?_⟩
    · intro o' ho'
      rcases Multiset.mem_cons.mp ho' with rfl | ho'
      · exact ⟨o, by simp [hlive], ⟨rfl⟩, le_rfl, fun _ => rfl⟩
      · exact ⟨o', by simp [hlive, ho'], ⟨rfl⟩, le_rfl, fun _ => rfl⟩
    · intro ev hev id hm
      obtain rfl := List.mem_singleton.mp hev
      exact ⟨o, by simp [hlive], hr.orderId.symm.trans hm⟩
  | filled o rest r hlive hr hstatus hrem =>
    refine Or.inl ⟨rfl, by simp [hlive, Multiset.le_cons_self], ?_, [.exec r], rfl, rfl, ?_⟩
    · intro o' ho'
      exact ⟨o', by simp [hlive, ho'], ⟨rfl⟩, le_rfl, fun _ => rfl⟩
    · intro ev hev id hm
      obtain rfl := List.mem_singleton.mp hev
      exact ⟨o, by simp [hlive], hr.orderId.symm.trans hm⟩
  | drop o rest hlive hrem =>
    refine Or.inl ⟨rfl, by simp [hlive, Multiset.le_cons_self], ?_, [], by simp, rfl, by simp⟩
    intro o' ho'
    exact ⟨o', by simp [hlive, ho'], ⟨rfl⟩, le_rfl, fun _ => rfl⟩
  | withdraw o rest hlive =>
    refine Or.inl ⟨rfl, by simp [hlive, Multiset.le_cons_self], ?_, [.exit o], rfl, rfl, ?_⟩
    · intro o' ho'
      exact ⟨o', by simp [hlive, ho'], ⟨rfl⟩, le_rfl, fun _ => rfl⟩
    · intro ev hev id hm
      obtain rfl := List.mem_singleton.mp hev
      exact ⟨o, by simp [hlive], hm⟩
  | close o rest r hlive hr hstatus =>
    refine Or.inl ⟨rfl, by simp [hlive, Multiset.le_cons_self], ?_, [.exit o, .exec r], rfl, rfl,
      ?_⟩
    · intro o' ho'
      exact ⟨o', by simp [hlive, ho'], ⟨rfl⟩, le_rfl, fun _ => rfl⟩
    · intro ev hev id hm
      simp only [List.mem_cons, List.not_mem_nil, or_false] at hev
      rcases hev with rfl | rfl
      · exact ⟨o, by simp [hlive], hm⟩
      · exact ⟨o, by simp [hlive], hr.orderId.symm.trans hm⟩

/-! ### Ids -/

/-- Ids are handed out as 1, 2, 3, ...; each live order has its own and is the order that entered
under it; and events carry only ids that were handed out. -/
structure Ids (l : Ledger) : Prop where
  nodup : (l.live.map Order.orderId).Nodup
  entryIds : entryIds l.log = List.range' 1 (l.nextOrderId - 1)
  nextPos : 1 ≤ l.nextOrderId
  entered : ∀ o ∈ l.live, ∃ e, .entry e ∈ l.log ∧ Tracks e o
  bound : ∀ o ∈ l.live, o.remainingQty ≤ o.quantity
  parked : ∀ o ∈ l.live, o.ordType.isStop = true → o.remainingQty = o.quantity
  known : ∀ ev ∈ l.log, ∀ id, ev.Concerns id → id ∈ EuNEx.entryIds l.log

namespace Ids

lemma mem_entryIds_iff (h : l.Ids) {id : ℕ} :
    id ∈ EuNEx.entryIds l.log ↔ 1 ≤ id ∧ id < l.nextOrderId := by
  have := h.nextPos
  rw [h.entryIds, List.mem_range'_1]
  omega

lemma entryIds_nodup (h : l.Ids) : (EuNEx.entryIds l.log).Nodup := by
  rw [h.entryIds]
  exact List.nodup_range'

lemma live_mem_entryIds (h : l.Ids) {o : Order} (ho : o ∈ l.live) :
    o.orderId ∈ EuNEx.entryIds l.log := by
  obtain ⟨e, he, ht⟩ := h.entered o ho
  exact mem_entryIds.mpr ⟨e, he, ht.orderId.symm⟩

lemma live_lt (h : l.Ids) {o : Order} (ho : o ∈ l.live) : o.orderId < l.nextOrderId :=
  (h.mem_entryIds_iff.mp (h.live_mem_entryIds ho)).2

/-- The entry of a live order is the entry under its id. -/
lemma tracks_of_entry (h : l.Ids) {o e : Order} (ho : o ∈ l.live) (he : .entry e ∈ l.log)
    (hid : e.orderId = o.orderId) : Tracks e o := by
  obtain ⟨e', he', ht⟩ := h.entered o ho
  rwa [entry_unique h.entryIds_nodup he he' (hid.trans ht.orderId)]

/-- A live order taken out of the ledger has an id that no other live order has. -/
lemma ne_of_mem_rest (h : l.Ids) {o o' : Order} {rest : Multiset Order}
    (hlive : l.live = o ::ₘ rest) (ho' : o' ∈ rest) : o'.orderId ≠ o.orderId := by
  have hnd := h.nodup
  rw [hlive, Multiset.map_cons, Multiset.nodup_cons] at hnd
  intro heq
  exact hnd.1 (heq ▸ Multiset.mem_map_of_mem _ ho')

lemma empty : Ids Ledger.empty where
  nodup := by simp [Ledger.empty]
  entryIds := rfl
  nextPos := le_rfl
  entered := by simp [Ledger.empty]
  bound := by simp [Ledger.empty]
  parked := by simp [Ledger.empty]
  known := by simp [Ledger.empty]

theorem step (h : l.Ids) (hs : Step l l') : l'.Ids := by
  rcases hs.cases with hs | ⟨o, hid, hqty, rfl⟩
  · obtain ⟨evs, hlog, hevs, hm⟩ := hs.log
    have hentry : EuNEx.entryIds l'.log = EuNEx.entryIds l.log := by simp [hlog, hevs]
    refine ⟨Multiset.nodup_of_le hs.ids h.nodup, by rw [hentry, hs.nextOrderId, h.entryIds],
      hs.nextOrderId ▸ h.nextPos, ?_, ?_, ?_, ?_⟩
    · intro o' ho'
      obtain ⟨o, ho, ht, -⟩ := hs.tracked o' ho'
      obtain ⟨e, he, hte⟩ := h.entered o ho
      exact ⟨e, by simp [hlog, he], hte.trans ht⟩
    · intro o' ho'
      obtain ⟨o, ho, ht, hle, -⟩ := hs.tracked o' ho'
      rw [ht.quantity]
      exact hle.trans (h.bound o ho)
    · intro o' ho' hstop
      obtain ⟨o, ho, ht, -, hp⟩ := hs.tracked o' ho'
      rw [ht.ordType] at hstop
      rw [ht.quantity, hp hstop, h.parked o ho hstop]
    · intro ev hev id hid
      rw [hentry]
      rcases List.mem_append.mp (hlog ▸ hev) with hev | hev
      · exact h.known ev hev id hid
      · obtain ⟨o, ho, rfl⟩ := hm ev hev id hid
        exact h.live_mem_entryIds ho
  · have hpos := h.nextPos
    refine ⟨?_, ?_, Nat.le_succ_of_le hpos, ?_, ?_, ?_, ?_⟩
    · rw [Multiset.map_cons, Multiset.nodup_cons]
      refine ⟨fun hmem => ?_, h.nodup⟩
      obtain ⟨o', ho', heq⟩ := Multiset.mem_map.mp hmem
      have := h.live_lt ho'
      omega
    · have hn : l.nextOrderId + 1 - 1 = l.nextOrderId - 1 + 1 := by omega
      rw [entryIds_append, entryIds_entry, h.entryIds, hn, List.range'_concat, hid]
      congr 2
      omega
    · intro o' ho'
      rcases Multiset.mem_cons.mp ho' with rfl | ho'
      · exact ⟨o', by simp, ⟨rfl⟩⟩
      · obtain ⟨e, he, ht⟩ := h.entered o' ho'
        exact ⟨e, by simp [he], ht⟩
    · intro o' ho'
      rcases Multiset.mem_cons.mp ho' with rfl | ho'
      · exact hqty.le
      · exact h.bound o' ho'
    · intro o' ho' hstop
      rcases Multiset.mem_cons.mp ho' with rfl | ho'
      · exact hqty
      · exact h.parked o' ho' hstop
    · intro ev hev id hm
      simp only [entryIds_append, List.mem_append]
      rcases List.mem_append.mp hev with hev | hev
      · exact Or.inl (h.known ev hev id hm)
      · obtain rfl := List.mem_singleton.mp hev
        exact Or.inr (by simpa using hm.symm)

end Ids

/-! ### Accounts -/

/-- What an order has open while it is live. -/
def held (live : Multiset Order) (id : ℕ) : ℕ :=
  (live.map fun o => if o.orderId = id then o.remainingQty else 0).sum

lemma held_eq_zero {live : Multiset Order} {id : ℕ} (h : ∀ o ∈ live, o.orderId ≠ id) :
    held live id = 0 := by
  apply Multiset.sum_eq_zero
  intro q hq
  obtain ⟨o, ho, rfl⟩ := Multiset.mem_map.mp hq
  exact if_neg (h o ho)

/-- An id is held by the one order that has it. -/
lemma Ids.held_eq (hI : l.Ids) {o : Order} (ho : o ∈ l.live) :
    held l.live o.orderId = o.remainingQty := by
  obtain ⟨rest, hrest⟩ := Multiset.exists_cons_of_mem ho
  have hzero : held rest o.orderId = 0 := held_eq_zero fun o' => hI.ne_of_mem_rest hrest
  rw [held] at hzero ⊢
  rw [hrest, Multiset.map_cons, Multiset.sum_cons, hzero, if_pos rfl, Nat.add_zero]

/-- Every quantity that entered is accounted for: it is traded, or open, or was removed when the
order left. -/
structure Account (l : Ledger) : Prop where
  live : ∀ o ∈ l.live, traded l.log o.orderId + o.remainingQty = o.quantity ∧
    exited l.log o.orderId = 0
  gone : ∀ e, .entry e ∈ l.log → (∀ o ∈ l.live, o.orderId ≠ e.orderId) →
    traded l.log e.orderId + exited l.log e.orderId = e.quantity

namespace Account

lemma empty : Account Ledger.empty := ⟨by simp [Ledger.empty], by simp [Ledger.empty]⟩

/-- An id that was not handed out yet has no account. -/
lemma fresh (hI : l.Ids) {id : ℕ} (hid : id ∉ entryIds l.log) :
    traded l.log id = 0 ∧ exited l.log id = 0 := by
  have hno : ∀ ev ∈ l.log, ¬ev.Concerns id := fun ev hev hc => hid (hI.known ev hev id hc)
  exact ⟨traded_eq_zero fun t ht => hno _ ht, exited_eq_zero fun o ho => hno _ ho⟩

/-- A live order that goes with nothing left, or has what is left recorded, closes its account. -/
lemma gone_of_rest (hI : l.Ids) (h : l.Account) {o e : Order} {rest : Multiset Order}
    (hlive : l.live = o ::ₘ rest) (he : .entry e ∈ l.log)
    (hgone : ∀ o' ∈ rest, o'.orderId ≠ e.orderId) :
    (o.orderId = e.orderId ∧ traded l.log e.orderId + o.remainingQty = e.quantity ∧
        exited l.log e.orderId = 0) ∨
      o.orderId ≠ e.orderId ∧ traded l.log e.orderId + exited l.log e.orderId = e.quantity := by
  have ho : o ∈ l.live := by simp [hlive]
  by_cases hid : o.orderId = e.orderId
  · obtain ⟨h1, h2⟩ := h.live o ho
    rw [hid] at h1 h2
    rw [(hI.tracks_of_entry ho he hid.symm).quantity] at h1
    exact Or.inl ⟨hid, h1, h2⟩
  · refine Or.inr ⟨hid, h.gone e he fun o' ho' => ?_⟩
    rw [hlive] at ho'
    rcases Multiset.mem_cons.mp ho' with rfl | ho'
    · exact hid
    · exact hgone o' ho'

/-- A report moves no quantity. -/
lemma exec (h : l.Account) (r : ExecutionReport) :
    Account { l with log := l.log ++ [.exec r] } where
  live o ho := by simpa using h.live o ho
  gone e he hgone := by simpa using h.gone e (by simpa using he) hgone

/-- The accounts stay right when an order with nothing left is dropped. -/
lemma drop (hI : l.Ids) (h : l.Account) {o : Order} {rest : Multiset Order}
    (hlive : l.live = o ::ₘ rest) (hrem : o.remainingQty = 0) :
    Account { l with live := rest } := by
  refine ⟨fun o' ho' => h.live o' (by simp [hlive, ho']), fun e he hgone => ?_⟩
  rcases gone_of_rest hI h hlive he hgone with ⟨-, h1, h2⟩ | ⟨-, h1⟩
  · show traded l.log e.orderId + exited l.log e.orderId = e.quantity
    rw [h2, ← h1, hrem]
  · exact h1

/-- The accounts stay right when an order is withdrawn. -/
lemma withdraw (hI : l.Ids) (h : l.Account) {o : Order} {rest : Multiset Order}
    (hlive : l.live = o ::ₘ rest) : Account { l with live := rest, log := l.log ++ [.exit o] } := by
  constructor
  · intro o' ho'
    simpa [Ne.symm (hI.ne_of_mem_rest hlive ho')] using h.live o' (by simp [hlive, ho'])
  · intro e he hgone
    rcases gone_of_rest hI h hlive (by simpa using he) hgone with ⟨hid, h1, h2⟩ | ⟨hid, h1⟩
    · simp only [traded_append, traded_exit, exited_append, exited_exit, hid, if_true]
      rw [h2, Nat.add_zero, Nat.zero_add, h1]
    · simpa [hid] using h1

theorem step (hI : l.Ids) (h : l.Account) (hs : Step l l') : l'.Account := by
  cases hs with
  | enter o hid hqty =>
    have hfresh : o.orderId ∉ entryIds l.log := by
      rw [hI.mem_entryIds_iff]
      omega
    constructor
    · intro o' ho'
      rcases Multiset.mem_cons.mp ho' with rfl | ho'
      · simp [fresh hI hfresh, hqty]
      · simpa using h.live o' ho'
    · intro e he hgone
      simp only [List.mem_append, List.mem_singleton, BookEvent.entry.injEq] at he
      rcases he with he | rfl
      · simpa using h.gone e he fun o' ho' => hgone o' (by simp [ho'])
      · exact absurd rfl (hgone e (by simp))
  | trade buyer seller rest t hlive hterms hbuyer hseller hid hb hs =>
    have hbmem : buyer ∈ l.live := by simp [hlive]
    have hsmem : seller ∈ l.live := by simp [hlive]
    have hrest : ∀ o ∈ rest, o.orderId ≠ buyer.orderId ∧ o.orderId ≠ seller.orderId :=
      fun o ho => ⟨hI.ne_of_mem_rest hlive (by simp [ho]),
        hI.ne_of_mem_rest (hlive.trans (Multiset.cons_swap _ _ _)) (by simp [ho])⟩
    have hne : seller.orderId ≠ buyer.orderId := hI.ne_of_mem_rest hlive (by simp)
    constructor
    · intro o ho
      simp only [Multiset.mem_cons] at ho
      rcases ho with rfl | rfl | ho
      · have := h.live buyer hbmem
        simp only [traded_append, traded_trade, hterms.buyOrderId, true_or, if_true, exited_append,
          exited_trade]
        omega
      · have := h.live seller hsmem
        simp only [traded_append, traded_trade, hterms.sellOrderId, or_true, if_true, exited_append,
          exited_trade]
        omega
      · obtain ⟨h1, h2⟩ := hrest o ho
        simpa [hterms.buyOrderId, hterms.sellOrderId, Ne.symm h1, Ne.symm h2]
          using h.live o (by simp [hlive, ho])
    · intro e he hgone
      have he' : .entry e ∈ l.log := by simpa using he
      have h1 : buyer.orderId ≠ e.orderId := hgone (fill buyer t.quantity) (by simp)
      have h2 : seller.orderId ≠ e.orderId := hgone (fill seller t.quantity) (by simp)
      simpa [hterms.buyOrderId, hterms.sellOrderId, h1, h2] using h.gone e he' fun o ho => by
        simp only [hlive, Multiset.mem_cons] at ho
        rcases ho with rfl | rfl | ho
        · exact h1
        · exact h2
        · exact hgone o (by simp [ho])
  | report o rest status r hlive hr hopen hrem =>
    constructor
    · intro o' ho'
      rcases Multiset.mem_cons.mp ho' with rfl | ho'
      · simpa using h.live o (by simp [hlive])
      · simpa using h.live o' (by simp [hlive, ho'])
    · intro e he hgone
      simpa using h.gone e (by simpa using he) fun o' ho' => by
        rw [hlive] at ho'
        rcases Multiset.mem_cons.mp ho' with rfl | ho'
        · exact hgone { o' with status := status } (by simp)
        · exact hgone o' (by simp [ho'])
  | filled o rest r hlive hr hstatus hrem => exact (h.drop hI hlive hrem).exec r
  | drop o rest hlive hrem => exact h.drop hI hlive hrem
  | withdraw o rest hlive => exact h.withdraw hI hlive
  | close o rest r hlive hr hstatus =>
    have hleft := (h.withdraw hI hlive).exec r
    rwa [List.append_assoc] at hleft

/-- The balance of an entered order: traded, still open, and removed. -/
theorem balance (hI : l.Ids) (h : l.Account) {e : Order} (he : .entry e ∈ l.log) :
    e.quantity = traded l.log e.orderId + held l.live e.orderId + exited l.log e.orderId := by
  by_cases hlive : ∃ o ∈ l.live, o.orderId = e.orderId
  · obtain ⟨o, ho, hid⟩ := hlive
    have hheld := hI.held_eq ho
    have hlive := h.live o ho
    rw [hid] at hheld
    rw [hid, (hI.tracks_of_entry ho he hid.symm).quantity] at hlive
    omega
  · have hother : ∀ o ∈ l.live, o.orderId ≠ e.orderId := fun o ho hid => hlive ⟨o, ho, hid⟩
    rw [held_eq_zero hother, Nat.add_zero, h.gone e he hother]

end Account

/-! ### Trades -/

/-- The trade has the next trade id, and both its orders entered before it. -/
def TradeOK (pre : List BookEvent) : BookEvent → Prop
  | .trade t => t.tradeId = (trades pre).length + 1 ∧ ∃ buyer seller,
      .entry buyer ∈ pre ∧ .entry seller ∈ pre ∧ buyer.orderId ≠ seller.orderId ∧
        t.Between buyer seller
  | _ => True

/-- Every trade is between two entered orders, and the counters agree with the history. -/
structure Provenance (l : Ledger) : Prop where
  always : Machine.Always TradeOK l.log
  nextTradeId : l.nextTradeId = (trades l.log).length + 1
  lastTradePrice : l.lastTradePrice = lastPrice l.log

namespace Provenance

lemma empty : Provenance Ledger.empty := ⟨Machine.always_nil, rfl, rfl⟩

/-- Events other than trades do not touch the trades of the history. -/
lemma append (h : l.Provenance) (evs : List BookEvent) (hevs : trades evs = [])
    (htrade : l'.nextTradeId = l.nextTradeId) (hlast : l'.lastTradePrice = l.lastTradePrice)
    (hlog : l'.log = l.log ++ evs) : l'.Provenance := by
  have htrades : trades l'.log = trades l.log := by simp [hlog, hevs]
  refine ⟨?_, by rw [htrade, h.nextTradeId, htrades], by
    rw [hlast, h.lastTradePrice, lastPrice, lastPrice, htrades]⟩
  rw [hlog, Machine.always_append]
  refine ⟨h.always, fun pre ev post heq => ?_⟩
  cases ev with
  | trade t =>
    have hmem : t ∈ trades evs := mem_trades.mpr (by simp [heq])
    rw [hevs] at hmem
    cases hmem
  | entry e => trivial
  | exec r => trivial
  | exit o => trivial

theorem step (hI : l.Ids) (h : l.Provenance) (hs : Step l l') : l'.Provenance := by
  cases hs with
  | enter o hid hqty => exact h.append _ (trades_entry o) rfl rfl rfl
  | trade buyer seller rest t hlive hterms hbuyer hseller hid hb hs =>
    refine ⟨Machine.always_snoc.mpr ⟨h.always, ?_⟩, ?_, ?_⟩
    · obtain ⟨eb, heb, htb⟩ := hI.entered buyer (by simp [hlive])
      obtain ⟨es, hes, hts⟩ := hI.entered seller (by simp [hlive])
      have hne : seller.orderId ≠ buyer.orderId := hI.ne_of_mem_rest hlive (by simp)
      rw [htb.orderId, hts.orderId] at hne
      exact ⟨hid.trans h.nextTradeId, eb, es, heb, hes, hne.symm, htb.between hts hterms⟩
    · simp [h.nextTradeId]
    · simp [lastPrice]
  | report o rest status r hlive hr hopen hrem => exact h.append _ (trades_exec r) rfl rfl rfl
  | filled o rest r hlive hr hstatus hrem => exact h.append _ (trades_exec r) rfl rfl rfl
  | drop o rest hlive hrem => exact h.append _ trades_nil rfl rfl (by simp)
  | withdraw o rest hlive => exact h.append _ (trades_exit o) rfl rfl rfl
  | close o rest r hlive hr hstatus => exact h.append [.exit o, .exec r] rfl rfl rfl rfl

/-- Trade ids count the trades. -/
theorem tradeIds (h : l.Provenance) :
    (trades l.log).map Trade.tradeId = List.range' 1 (trades l.log).length := by
  suffices H : ∀ log, Machine.Always TradeOK log →
      (trades log).map Trade.tradeId = List.range' 1 (trades log).length from H _ h.always
  intro log
  induction log using List.reverseRecOn with
  | nil => intro _; rfl
  | append_singleton log ev ih =>
    intro halways
    obtain ⟨hlog, hev⟩ := Machine.always_snoc.mp halways
    cases ev with
    | trade t =>
      obtain ⟨hid, -⟩ := hev
      simp only [trades_append, trades_trade, List.map_append, ih hlog, List.length_append,
        List.length_singleton, List.range'_concat, List.map_cons, List.map_nil, hid]
      congr 2
      omega
    | entry e => simpa using ih hlog
    | exec r => simpa using ih hlog
    | exit o => simpa using ih hlog

end Provenance

/-! ### Reports -/

/-- The report agrees with the trades before it, and with the client's id and the quantity of its
order. -/
def ReportOK (pre : List BookEvent) : BookEvent → Prop
  | .exec r => r.filledQty = traded pre r.orderId ∧ ∃ e, .entry e ∈ pre ∧ e.orderId = r.orderId ∧
      e.clOrdId = r.clOrdId ∧
      (r.status.isFinal = false → r.filledQty + r.remainingQty = e.quantity) ∧
      (r.status = .filled → r.filledQty = e.quantity)
  | _ => True

/-- Every report is true when it is made, and a closed order is never heard of again. -/
structure Reports (l : Ledger) : Prop where
  always : Machine.Always ReportOK l.log
  closed : ∀ ev ∈ l.log, ∀ id, ev.Closes id → ∀ o ∈ l.live, o.orderId ≠ id
  silent : l.log.Pairwise fun ev ev' => ∀ id, ev.Closes id → ¬ev'.Mentions id

namespace Reports

lemma empty : Reports Ledger.empty :=
  ⟨Machine.always_nil, by simp [Ledger.empty], List.Pairwise.nil⟩

/-- A report on a live order states what the history says it has traded. -/
lemma reportOK (hI : l.Ids) (hA : l.Account) {o : Order} {r : ExecutionReport} (ho : o ∈ l.live)
    (hr : r.About o) (hopen : r.status.isFinal = false → r.remainingQty = o.remainingQty)
    (hfilled : r.status = .filled → o.remainingQty = 0) : ReportOK l.log (.exec r) := by
  obtain ⟨e, he, ht⟩ := hI.entered o ho
  have hq := hA.live o ho
  have hle := hI.bound o ho
  refine ⟨?_, e, he, ?_, ?_, ?_, ?_⟩
  · rw [hr.filledQty, hr.orderId]
    omega
  · rw [hr.orderId, ht.orderId]
  · rw [hr.clOrdId, ht.clOrdId]
  · intro hfin
    rw [hr.filledQty, hopen hfin, ← ht.quantity]
    omega
  · intro hfin
    rw [hr.filledQty, hfilled hfin, ← ht.quantity]
    rfl

/-- A rule other than `enter` keeps the law, if its own reports are true and close their order. -/
lemma of_shrinks (h : l.Reports) (hs : Shrinks l l') (evs : List BookEvent)
    (hlog : l'.log = l.log ++ evs)
    (hok : Machine.Always (fun pre ev => ReportOK (l.log ++ pre) ev) evs)
    (hclosed : ∀ ev ∈ evs, ∀ id, ev.Closes id → ∀ o ∈ l'.live, o.orderId ≠ id)
    (hself : evs.Pairwise fun ev ev' => ∀ id, ev.Closes id → ¬ev'.Mentions id) : l'.Reports := by
  obtain ⟨evs', hlog', -, hm⟩ := hs.log
  obtain rfl : evs' = evs := List.append_cancel_left (hlog'.symm.trans hlog)
  refine ⟨?_, ?_, ?_⟩
  · rw [hlog]
    exact Machine.always_append.mpr ⟨h.always, hok⟩
  · intro ev hev id hc o' ho'
    rcases List.mem_append.mp (hlog ▸ hev) with hev | hev
    · obtain ⟨o, ho, ht, -⟩ := hs.tracked o' ho'
      rw [ht.orderId]
      exact h.closed ev hev id hc o ho
    · exact hclosed ev hev id hc o' ho'
  · rw [hlog]
    refine List.pairwise_append.mpr ⟨h.silent, hself, fun ev hev ev' hev' id hc hmen => ?_⟩
    obtain ⟨o, ho, hid⟩ := hm ev' hev' id hmen.concerns
    exact h.closed ev hev id hc o ho hid

theorem step (hI : l.Ids) (hA : l.Account) (h : l.Reports) (hs : Step l l') : l'.Reports := by
  rcases hs.cases with hsh | ⟨o, hid, hqty, rfl⟩
  · cases hs with
    | enter o hid hqty => exact absurd hsh.nextOrderId (by simp)
    | trade buyer seller rest t hlive hterms hbuyer hseller hid hb hs =>
      exact h.of_shrinks hsh [.trade t] rfl (Machine.always_singleton.mpr trivial)
        (by simp [BookEvent.Closes]) (List.pairwise_singleton _ _)
    | report o rest status r hlive hr hopen hrem =>
      have hok := reportOK hI hA (by simp [hlive]) hr (fun _ => hrem)
        (fun hfin => by simp [hfin, OrderStatus.isFinal] at hopen)
      exact h.of_shrinks hsh [.exec r] rfl (Machine.always_singleton.mpr (by simpa using hok))
        (by simp [BookEvent.Closes, hopen]) (List.pairwise_singleton _ _)
    | filled o rest r hlive hr hstatus hrem =>
      have hok := reportOK hI hA (by simp [hlive]) hr
        (fun hfin => by simp [hstatus, OrderStatus.isFinal] at hfin) (fun _ => hrem)
      refine h.of_shrinks hsh [.exec r] rfl (Machine.always_singleton.mpr (by simpa using hok)) ?_
        (List.pairwise_singleton _ _)
      intro ev hev id hc o' ho'
      obtain rfl := List.mem_singleton.mp hev
      rw [← hc.1, hr.orderId]
      exact hI.ne_of_mem_rest hlive ho'
    | drop o rest hlive hrem =>
      exact h.of_shrinks hsh [] (by simp) Machine.always_nil (by simp) List.Pairwise.nil
    | withdraw o rest hlive =>
      exact h.of_shrinks hsh [.exit o] rfl (Machine.always_singleton.mpr trivial)
        (by simp [BookEvent.Closes]) (List.pairwise_singleton _ _)
    | close o rest r hlive hr hstatus =>
      have hok := reportOK hI hA (by simp [hlive]) hr
        (fun hfin => by rcases hstatus with h | h <;> simp [h, OrderStatus.isFinal] at hfin)
        (fun hfin => by rcases hstatus with h | h <;> simp [h] at hfin)
      refine h.of_shrinks hsh [.exit o, .exec r] rfl ?_ ?_ ?_
      · refine (Machine.always_snoc (h := [BookEvent.exit o])).mpr
          ⟨Machine.always_singleton.mpr trivial, ?_⟩
        obtain ⟨hfilled, e, he, hrest⟩ := hok
        exact ⟨by simpa using hfilled, e, by simp [he], hrest⟩
      · intro ev hev id hc o' ho'
        simp only [List.mem_cons, List.not_mem_nil, or_false] at hev
        rcases hev with rfl | rfl
        · exact hc.elim
        · rw [← hc.1, hr.orderId]
          exact hI.ne_of_mem_rest hlive ho'
      · simp [BookEvent.Closes]
  · refine ⟨Machine.always_snoc.mpr ⟨h.always, trivial⟩, ?_, ?_⟩
    · intro ev hev id hc o' ho'
      have hknown : ∀ ev ∈ l.log, ev.Closes id → id < l.nextOrderId := fun ev hev hc => by
        cases ev with
        | exec r => exact (hI.mem_entryIds_iff.mp (hI.known _ hev id hc.1)).2
        | entry e => exact hc.elim
        | trade t => exact hc.elim
        | exit o => exact hc.elim
      rcases List.mem_append.mp hev with hold | hnew
      · rcases Multiset.mem_cons.mp ho' with rfl | ho'
        · have := hknown ev hold hc
          omega
        · exact h.closed ev hold id hc o' ho'
      · obtain rfl := List.mem_singleton.mp hnew
        exact hc.elim
    · refine List.pairwise_append.mpr ⟨h.silent, List.pairwise_singleton _ _, ?_⟩
      intro ev hev ev' hev' id hc hm
      obtain rfl := List.mem_singleton.mp hev'
      exact hm.elim

end Reports

/-! ### The laws along any sequence of rules -/

/-- The four laws together. -/
structure Laws (l : Ledger) : Prop where
  ids : l.Ids
  account : l.Account
  provenance : l.Provenance
  reports : l.Reports

theorem Laws.empty : Laws Ledger.empty := ⟨.empty, .empty, .empty, .empty⟩

theorem Laws.steps (h : l.Laws) (hs : Steps l l') : l'.Laws := by
  induction hs with
  | refl => exact h
  | tail _ hs ih =>
    exact ⟨ih.ids.step hs, ih.account.step ih.ids hs, ih.provenance.step ih.ids hs,
      ih.reports.step ih.ids ih.account hs⟩

/-! ### Sequences of rules without an entry -/

lemma Step.nextOrderId_le (h : Step l l') : l.nextOrderId ≤ l'.nextOrderId := by
  rcases h.cases with hs | ⟨o, -, -, rfl⟩
  · exact hs.nextOrderId.ge
  · exact Nat.le_succ _

lemma nextOrderId_le (h : Steps l l') : l.nextOrderId ≤ l'.nextOrderId := by
  induction h with
  | refl => exact le_rfl
  | tail _ hs ih => exact ih.trans hs.nextOrderId_le

/-- A new trade of a rule is between two live orders. -/
lemma Step.trade_live (h : Step l l') {t : Trade} (ht : .trade t ∈ l'.log) :
    .trade t ∈ l.log ∨ ∃ o ∈ l.live, ∃ o' ∈ l.live, t.Between o o' ∧
      o.ordType.isStop = false ∧ o'.ordType.isStop = false := by
  cases h with
  | trade buyer seller rest t' hlive hterms hbuyer hseller hid hb hs =>
    simp only [List.mem_append, List.mem_singleton, BookEvent.trade.injEq] at ht
    rcases ht with ht | rfl
    · exact Or.inl ht
    · exact Or.inr ⟨buyer, by simp [hlive], seller, by simp [hlive], hterms, hbuyer, hseller⟩
  | _ => exact Or.inl (by simpa using ht)

/-- Where no order enters, all trades are between orders that were live before. -/
theorem trade_live (h : Steps l l') (hnext : l'.nextOrderId = l.nextOrderId) :
    (∀ o' ∈ l'.live, ∃ o ∈ l.live, Tracks o o') ∧ ∀ t, .trade t ∈ l'.log →
      .trade t ∈ l.log ∨ ∃ o ∈ l.live, ∃ o' ∈ l.live, t.Between o o' ∧
        o.ordType.isStop = false ∧ o'.ordType.isStop = false := by
  induction h with
  | refl => exact ⟨fun o ho => ⟨o, ho, ⟨rfl⟩⟩, fun t ht => Or.inl ht⟩
  | @tail mid l' hmid hs ih =>
    have hle := nextOrderId_le hmid
    have hle' := hs.nextOrderId_le
    obtain ⟨htracked, htrades⟩ := ih (by omega)
    constructor
    · intro o' ho'
      rcases hs.cases with hsh | ⟨o, -, -, rfl⟩
      · obtain ⟨o₁, ho₁, ht₁, -⟩ := hsh.tracked o' ho'
        obtain ⟨o, ho, ht⟩ := htracked o₁ ho₁
        exact ⟨o, ho, ht.trans ht₁⟩
      · simp only at hnext
        omega
    · intro t ht
      rcases hs.trade_live ht with ht | ⟨o₁, ho₁, o₂, ho₂, hbetween, hexec₁, hexec₂⟩
      · exact htrades t ht
      · obtain ⟨o, ho, htr⟩ := htracked o₁ ho₁
        obtain ⟨o', ho', htr'⟩ := htracked o₂ ho₂
        rw [htr.ordType] at hexec₁
        rw [htr'.ordType] at hexec₂
        exact Or.inr ⟨o, ho, o', ho', htr.between htr' hbetween, hexec₁, hexec₂⟩

end EuNEx.Ledger
