import EuNEx.Book.Basic
import EuNEx.Lib.Machine
import Mathlib.Algebra.BigOperators.Group.Multiset.Basic
import Mathlib.Algebra.Order.Group.Nat
import Mathlib.Data.Multiset.MapFold
import Mathlib.Logic.Relation

/-!
# The order ledger

What an order book is for, without levels, priorities or phases: it answers for a multiset of live
orders, and it may let a new order in, let a buyer and a seller trade, report on a live order, and
let an order go. Every rule of the ledger names the events it appends to the history, so the laws
of the history are laws of these seven rules.
-/

namespace EuNEx

/-! ### Reading the history -/

namespace BookEvent

/-- The quantity of a trade in which the order is buyer or seller. -/
def tradedQty (id : ℕ) : BookEvent → ℕ
  | .trade t => if t.buyOrderId = id ∨ t.sellOrderId = id then t.quantity else 0
  | _ => 0

/-- The quantity with which the order left the book. -/
def exitQty (id : ℕ) : BookEvent → ℕ
  | .exit o => if o.orderId = id then o.remainingQty else 0
  | _ => 0

def entryId? : BookEvent → Option ℕ
  | .entry o => some o.orderId
  | _ => none

def trade? : BookEvent → Option Trade
  | .trade t => some t
  | _ => none

/-- A trade or a report about the order. -/
def Mentions (id : ℕ) : BookEvent → Prop
  | .trade t => t.buyOrderId = id ∨ t.sellOrderId = id
  | .exec r => r.orderId = id
  | .entry _ | .exit _ => False

/-- Any event that carries the id. -/
def Concerns (id : ℕ) : BookEvent → Prop
  | .trade t => t.buyOrderId = id ∨ t.sellOrderId = id
  | .exec r => r.orderId = id
  | .entry o | .exit o => o.orderId = id

lemma Mentions.concerns {id : ℕ} {ev : BookEvent} (h : ev.Mentions id) : ev.Concerns id := by
  cases ev with
  | trade t => exact h
  | exec r => exact h
  | entry o => exact h.elim
  | exit o => exact h.elim

/-- The event is a report after which the order is done with. -/
def Closes (id : ℕ) : BookEvent → Prop
  | .exec r => r.orderId = id ∧ r.status.isFinal
  | _ => False

end BookEvent

/-- The quantity an order has traded. -/
def traded (log : List BookEvent) (id : ℕ) : ℕ :=
  (log.map (BookEvent.tradedQty id)).sum

/-- The quantity an order had open when it left: cancelled, replaced, converted, rejected or
dropped. -/
def exited (log : List BookEvent) (id : ℕ) : ℕ :=
  (log.map (BookEvent.exitQty id)).sum

def entryIds (log : List BookEvent) : List ℕ := log.filterMap BookEvent.entryId?

def trades (log : List BookEvent) : List Trade := log.filterMap BookEvent.trade?

/-- The price of the last trade, 0 before the first one. -/
def lastPrice (log : List BookEvent) : ℤ := ((trades log).getLast?.map Trade.price).getD 0

section

variable (log log' : List BookEvent) (id : ℕ) (o : Order) (t : Trade) (r : ExecutionReport)

@[simp] lemma traded_append : traded (log ++ log') id = traded log id + traded log' id := by
  simp [traded]

@[simp] lemma traded_entry : traded [.entry o] id = 0 := rfl

@[simp] lemma traded_exec : traded [.exec r] id = 0 := rfl

@[simp] lemma traded_exit : traded [.exit o] id = 0 := rfl

@[simp] lemma traded_trade : traded [.trade t] id
    = if t.buyOrderId = id ∨ t.sellOrderId = id then t.quantity else 0 := by
  simp [traded, BookEvent.tradedQty]

/-- An order that makes no trade. -/
lemma traded_eq_zero {log : List BookEvent} {id : ℕ}
    (h : ∀ t, .trade t ∈ log → ¬(t.buyOrderId = id ∨ t.sellOrderId = id)) :
    traded log id = 0 := by
  refine List.sum_eq_zero fun n hn => ?_
  obtain ⟨ev, hev, rfl⟩ := List.mem_map.mp hn
  cases ev with
  | trade t => exact if_neg (h t hev)
  | entry o => rfl
  | exec r => rfl
  | exit o => rfl

@[simp] lemma exited_append : exited (log ++ log') id = exited log id + exited log' id := by
  simp [exited]

lemma exited_eq_zero {log : List BookEvent} {id : ℕ}
    (h : ∀ o, .exit o ∈ log → o.orderId ≠ id) : exited log id = 0 := by
  refine List.sum_eq_zero fun n hn => ?_
  obtain ⟨ev, hev, rfl⟩ := List.mem_map.mp hn
  cases ev with
  | exit o => exact if_neg (h o hev)
  | entry o => rfl
  | exec r => rfl
  | trade t => rfl

@[simp] lemma exited_entry : exited [.entry o] id = 0 := rfl

@[simp] lemma exited_exec : exited [.exec r] id = 0 := rfl

@[simp] lemma exited_trade : exited [.trade t] id = 0 := rfl

@[simp] lemma exited_exit : exited [.exit o] id = if o.orderId = id then o.remainingQty else 0 := by
  simp [exited, BookEvent.exitQty]

@[simp] lemma entryIds_append : entryIds (log ++ log') = entryIds log ++ entryIds log' := by
  simp [entryIds]

@[simp] lemma entryIds_entry : entryIds [.entry o] = [o.orderId] := rfl

@[simp] lemma entryIds_trade : entryIds [.trade t] = [] := rfl

@[simp] lemma trades_nil : trades [] = [] := rfl

@[simp] lemma trades_append : trades (log ++ log') = trades log ++ trades log' := by
  simp [trades]

@[simp] lemma trades_entry : trades [.entry o] = [] := rfl

@[simp] lemma trades_exec : trades [.exec r] = [] := rfl

@[simp] lemma trades_trade : trades [.trade t] = [t] := rfl

@[simp] lemma trades_exit : trades [.exit o] = [] := rfl

lemma mem_entryIds {log : List BookEvent} {id : ℕ} :
    id ∈ entryIds log ↔ ∃ e, .entry e ∈ log ∧ e.orderId = id := by
  simp only [entryIds, List.mem_filterMap]
  constructor
  · rintro ⟨ev, hev, h⟩
    cases ev with
    | entry e => exact ⟨e, hev, by simpa [BookEvent.entryId?] using h⟩
    | trade t => cases h
    | exec r => cases h
    | exit o => cases h
  · rintro ⟨e, he, rfl⟩
    exact ⟨.entry e, he, rfl⟩

lemma mem_trades {log : List BookEvent} {t : Trade} : t ∈ trades log ↔ .trade t ∈ log := by
  simp only [trades, List.mem_filterMap]
  constructor
  · rintro ⟨ev, hev, h⟩
    cases ev with
    | trade t' => cases h; exact hev
    | entry e => cases h
    | exec r => cases h
    | exit o => cases h
  · intro h
    exact ⟨.trade t, h, rfl⟩

end

/-- Two entries of one id are one entry. -/
lemma entry_unique {log : List BookEvent} (hnd : (entryIds log).Nodup) {e e' : Order}
    (he : .entry e ∈ log) (he' : .entry e' ∈ log) (hid : e.orderId = e'.orderId) : e = e' := by
  induction log with
  | nil => simp at he
  | cons ev log ih =>
    have hsplit : entryIds (ev :: log) = entryIds [ev] ++ entryIds log :=
      entryIds_append [ev] log
    rw [hsplit] at hnd
    have hdisj := (List.nodup_append.mp hnd).2.2
    have hnd' := (List.nodup_append.mp hnd).2.1
    rcases List.mem_cons.mp he with h | h <;> rcases List.mem_cons.mp he' with h' | h'
    · exact BookEvent.entry.inj (h.trans h'.symm)
    · subst h
      exact absurd hid (hdisj e.orderId (by simp) e'.orderId (mem_entryIds.mpr ⟨e', h', rfl⟩))
    · subst h'
      exact absurd hid.symm (hdisj e'.orderId (by simp) e.orderId (mem_entryIds.mpr ⟨e, h, rfl⟩))
    · exact ih hnd' h h'

/-! ### The rules -/

/-- The trade is between this buyer and this seller, at a price that respects their limits. -/
structure Trade.Between (t : Trade) (buyer seller : Order) : Prop where
  buyOrderId : t.buyOrderId = buyer.orderId
  sellOrderId : t.sellOrderId = seller.orderId
  buyClOrdId : t.buyClOrdId = buyer.clOrdId
  sellClOrdId : t.sellClOrdId = seller.clOrdId
  buySessionId : t.buySessionId = buyer.sessionId
  sellSessionId : t.sellSessionId = seller.sessionId
  buySide : buyer.side = .buy
  sellSide : seller.side = .sell
  buyLimit : buyer.ordType = .limit → t.price ≤ buyer.price
  sellLimit : seller.ordType = .limit → seller.price ≤ t.price

/-- The report names the order, and states what it has filled. -/
structure ExecutionReport.About (r : ExecutionReport) (o : Order) : Prop where
  orderId : r.orderId = o.orderId
  clOrdId : r.clOrdId = o.clOrdId
  filledQty : r.filledQty = o.quantity - o.remainingQty

/-- What the book answers for, and the history of its events. -/
structure Ledger where
  live : Multiset Order
  nextOrderId : ℕ
  nextTradeId : ℕ
  lastTradePrice : ℤ
  log : List BookEvent

namespace Ledger

/-- The order with `traded` filled. -/
abbrev fill (o : Order) (traded : ℕ) : Order :=
  { o with remainingQty := o.remainingQty - traded }

/-- The rules of the ledger. -/
inductive Step (l : Ledger) : Ledger → Prop
  /-- An order enters under the next id. -/
  | enter (o : Order) (hid : o.orderId = l.nextOrderId) (hqty : o.remainingQty = o.quantity) :
    Step l { l with
      live := o ::ₘ l.live
      nextOrderId := l.nextOrderId + 1
      log := l.log ++ [.entry o] }
  /-- Two live orders trade. -/
  | trade (buyer seller : Order) (rest : Multiset Order) (t : Trade)
    (hlive : l.live = buyer ::ₘ seller ::ₘ rest) (hterms : t.Between buyer seller)
    (hbuyer : buyer.ordType.isStop = false) (hseller : seller.ordType.isStop = false)
    (hid : t.tradeId = l.nextTradeId)
    (hb : t.quantity ≤ buyer.remainingQty) (hs : t.quantity ≤ seller.remainingQty) :
    Step l { l with
      live := fill buyer t.quantity ::ₘ fill seller t.quantity ::ₘ rest
      nextTradeId := l.nextTradeId + 1
      lastTradePrice := t.price
      log := l.log ++ [.trade t] }
  /-- A report on a live order that stays live. -/
  | report (o : Order) (rest : Multiset Order) (status : OrderStatus) (r : ExecutionReport)
    (hlive : l.live = o ::ₘ rest) (hr : r.About o) (hopen : r.status.isFinal = false)
    (hrem : r.remainingQty = o.remainingQty) :
    Step l { l with live := { o with status := status } ::ₘ rest, log := l.log ++ [.exec r] }
  /-- The last report on an order that is filled. -/
  | filled (o : Order) (rest : Multiset Order) (r : ExecutionReport)
    (hlive : l.live = o ::ₘ rest) (hr : r.About o) (hstatus : r.status = .filled)
    (hrem : o.remainingQty = 0) :
    Step l { l with live := rest, log := l.log ++ [.exec r] }
  /-- An order with nothing left is dropped without a word. -/
  | drop (o : Order) (rest : Multiset Order) (hlive : l.live = o ::ₘ rest)
    (hrem : o.remainingQty = 0) :
    Step l { l with live := rest }
  /-- An order leaves: it is replaced, or a stop is converted. -/
  | withdraw (o : Order) (rest : Multiset Order) (hlive : l.live = o ::ₘ rest) :
    Step l { l with live := rest, log := l.log ++ [.exit o] }
  /-- An order leaves with a last report: it is cancelled or rejected. -/
  | close (o : Order) (rest : Multiset Order) (r : ExecutionReport)
    (hlive : l.live = o ::ₘ rest) (hr : r.About o)
    (hstatus : r.status = .cancelled ∨ r.status = .rejected) :
    Step l { l with live := rest, log := l.log ++ [.exit o, .exec r] }

/-- Any number of rules, one after the other. -/
abbrev Steps : Ledger → Ledger → Prop := Relation.ReflTransGen Step

/-- The ledger of a book that has just been created. -/
def empty : Ledger := ⟨0, 1, 1, 0, []⟩

end Ledger

end EuNEx
