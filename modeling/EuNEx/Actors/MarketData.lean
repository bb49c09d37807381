import EuNEx.Actors.MECore
import Mathlib.Data.Finmap

/-!
# Market data

`actors/MDGActor.cpp`: for each symbol a snapshot that is kept up by the trades and the book
updates of the matching core. A book update says nothing of a side without levels, so the snapshot
follows the book exactly as long as no event empties a side. The field `updateTime` is left out.
-/

namespace EuNEx

/-- A snapshot; `snapshots_[symbolIdx]` starts out as zeros. -/
structure MarketDataSnapshot where
  symbolIdx : ℕ := 0
  lastTradePrice : ℤ := 0
  lastTradeQty : ℕ := 0
  bestBid : ℤ := 0
  bestAsk : ℤ := 0
  totalBidQty : ℕ := 0
  totalAskQty : ℕ := 0
  tradeCount : ℕ := 0
deriving DecidableEq, Repr

structure MDGActor where
  snapshots : Finmap fun _ : ℕ => MarketDataSnapshot := ∅
  recentTrades : List Trade := []

/-- The sum that `onEvent(BookUpdateEvent)` forms over the levels of a side. -/
def sumQty (levels : List BookUpdateEvent.Level) : ℕ :=
  levels.foldl (fun acc level => addQty acc level.qty) 0

namespace MarketDataSnapshot

variable (snap : MarketDataSnapshot)

def updateBids : List BookUpdateEvent.Level → MarketDataSnapshot
  | [] => snap
  | level :: levels =>
    { snap with bestBid := level.price, totalBidQty := sumQty (level :: levels) }

def updateAsks : List BookUpdateEvent.Level → MarketDataSnapshot
  | [] => snap
  | level :: levels =>
    { snap with bestAsk := level.price, totalAskQty := sumQty (level :: levels) }

section

variable {snap} {levels : List BookUpdateEvent.Level}

@[simp] lemma updateBids_tradeCount : (snap.updateBids levels).tradeCount = snap.tradeCount := by
  cases levels <;> rfl

@[simp] lemma updateAsks_tradeCount : (snap.updateAsks levels).tradeCount = snap.tradeCount := by
  cases levels <;> rfl

@[simp] lemma updateBids_lastTradePrice :
    (snap.updateBids levels).lastTradePrice = snap.lastTradePrice := by cases levels <;> rfl

@[simp] lemma updateAsks_lastTradePrice :
    (snap.updateAsks levels).lastTradePrice = snap.lastTradePrice := by cases levels <;> rfl

end

end MarketDataSnapshot

namespace MDGActor

variable (m : MDGActor)

/-- `MAX_RECENT_TRADES`. -/
def maxRecentTrades : ℕ := 200

/-- `snapshots_[symbolIdx]`. -/
def snapshot (symbolIdx : ℕ) : MarketDataSnapshot := (m.snapshots.lookup symbolIdx).getD {}

def onTrade (t : Trade) : MDGActor where
  snapshots :=
    let snap := m.snapshot t.symbolIdx
    m.snapshots.insert t.symbolIdx { snap with
      symbolIdx := t.symbolIdx
      lastTradePrice := t.price
      lastTradeQty := t.quantity
      tradeCount := snap.tradeCount + 1 }
  recentTrades :=
    let recentTrades := m.recentTrades ++ [t]
    if recentTrades.length > maxRecentTrades then recentTrades.tail else recentTrades

def onBookUpdate (event : BookUpdateEvent) : MDGActor :=
  let snap := { m.snapshot event.symbolIdx with symbolIdx := event.symbolIdx }
  let snap := (snap.updateBids event.bids).updateAsks event.asks
  { m with snapshots := m.snapshots.insert event.symbolIdx snap }

def getSnapshot (symbolIdx : ℕ) : Option MarketDataSnapshot := m.snapshots.lookup symbolIdx

/-- Deliver what the matching core pushes through `mdPipe_`. -/
def deliver : MECoreOutput → MDGActor
  | .marketTrade trade => m.onTrade trade
  | .bookUpdate event => m.onBookUpdate event
  | .execReport _ | .refusal _ | .clearingTrade _ | .entered _ _ => m

end MDGActor

/-- A matching core wired to the market data actor. -/
structure MarketFeed where
  core : MECoreActor
  mdg : MDGActor

namespace MarketFeed

def new (symbolIdx : ℕ) (hasClearingHouse : Bool) : MarketFeed :=
  ⟨.new symbolIdx hasClearingHouse, {}⟩

/-- Handle an event, and deliver what it pushes before the next event. -/
def step (f : MarketFeed) (event : MECoreEvent) : MarketFeed × List MECoreOutput :=
  (⟨(f.core.step event).1, (f.core.step event).2.foldl MDGActor.deliver f.mdg⟩,
    (f.core.step event).2)

end MarketFeed

/-! ### Sums of quantities -/

lemma foldl_addQty {α : Type*} (f : α → ℕ) (l : List α) {acc : ℕ} (hacc : acc < 2 ^ 64) :
    l.foldl (fun acc x => addQty acc (f x)) acc = (acc + (l.map f).sum) % 2 ^ 64 := by
  induction l generalizing acc with
  | nil => exact (Nat.mod_eq_of_lt hacc).symm
  | cons x l ih =>
    have hlt : addQty acc (f x) < 2 ^ 64 := Nat.mod_lt _ (by simp)
    rw [List.foldl_cons, ih hlt, addQty, List.map_cons, List.sum_cons]
    omega

lemma sum_map_mod {α : Type*} (f : α → ℕ) (l : List α) :
    (l.map fun x => f x % 2 ^ 64).sum % 2 ^ 64 = (l.map f).sum % 2 ^ 64 := by
  induction l with
  | nil => rfl
  | cons x l ih =>
    simp only [List.map_cons, List.sum_cons]
    omega

namespace Book

variable {b b' : Book} {s : Side}

/-- `bestBid` or `bestAsk`. -/
def best (b : Book) : Side → ℤ
  | .buy => b.bestBid
  | .sell => b.bestAsk

/-- The remaining quantity of the ten best levels of a side. -/
def tenBestQty (b : Book) (s : Side) : ℕ :=
  (((b.levels s).entries.take 10).map fun level => (level.2.map Order.remainingQty).sum).sum

/-- The levels of a side that go into a book update. -/
def published (b : Book) (s : Side) : List BookUpdateEvent.Level :=
  (getLevels (b.levels s) 10).map fun level => ⟨level.price, level.totalQty⟩

lemma sumQty_published (b : Book) (s : Side) :
    sumQty (b.published s) = b.tenBestQty s % 2 ^ 64 := by
  have hlevel : ∀ orders, sumRemaining orders 0
      = (orders.map Order.remainingQty).sum % 2 ^ 64 := by
    intro orders
    rw [sumRemaining, foldl_addQty _ _ (by simp), Nat.zero_add]
  rw [sumQty, foldl_addQty _ _ (by simp), Nat.zero_add, published, getLevels, tenBestQty]
  simp only [List.map_map, Function.comp_def, hlevel]
  exact sum_map_mod _ _

lemma published_eq_nil : b.published s = [] ↔ (b.levels s).entries = [] := by
  simp [published, getLevels]

lemma best_published {level : BookUpdateEvent.Level} {levels : List BookUpdateEvent.Level}
    (h : b.published s = level :: levels) : level.price = b.best s := by
  rw [published, getLevels] at h
  cases s with
  | buy =>
    cases he : b.bids.entries with
    | nil => simp [Book.levels, he] at h
    | cons e es =>
      simp only [Book.levels, he, List.take_succ_cons, List.map_cons, List.cons.injEq] at h
      simp [best, bestBid, OrdMap.first?, he, ← h.1]
  | sell =>
    cases he : b.asks.entries with
    | nil => simp [Book.levels, he] at h
    | cons e es =>
      simp only [Book.levels, he, List.take_succ_cons, List.map_cons, List.cons.injEq] at h
      simp [best, bestAsk, OrdMap.first?, he, ← h.1]

lemma best_of_nil (h : (b.levels s).entries = []) : b.best s = 0 := by
  cases s with
  | buy => simp [best, bestBid, OrdMap.first?, show b.bids.entries = [] from h]
  | sell => simp [best, bestAsk, OrdMap.first?, show b.asks.entries = [] from h]

lemma tenBestQty_of_nil (h : (b.levels s).entries = []) : b.tenBestQty s = 0 := by
  simp [tenBestQty, h]

end Book

/-! ### What a snapshot takes over -/

namespace MDGActor

variable {m : MDGActor} {symbolIdx : ℕ} {s : Side} {x : MECoreOutput} {xs : List MECoreOutput}

lemma snapshot_onTrade (t : Trade) : (m.onTrade t).snapshot t.symbolIdx
    = { m.snapshot t.symbolIdx with
        symbolIdx := t.symbolIdx
        lastTradePrice := t.price
        lastTradeQty := t.quantity
        tradeCount := (m.snapshot t.symbolIdx).tradeCount + 1 } := by
  simp [onTrade, snapshot]

lemma snapshot_onTrade_of_ne {t : Trade} (ht : symbolIdx ≠ t.symbolIdx) :
    (m.onTrade t).snapshot symbolIdx = m.snapshot symbolIdx := by
  simp [onTrade, snapshot, Finmap.lookup_insert_of_ne _ ht]

lemma snapshot_onBookUpdate (u : BookUpdateEvent) : (m.onBookUpdate u).snapshot u.symbolIdx
    = ({ m.snapshot u.symbolIdx with symbolIdx := u.symbolIdx }.updateBids u.bids).updateAsks
        u.asks := by
  simp [onBookUpdate, snapshot]

lemma snapshot_onBookUpdate_of_ne {u : BookUpdateEvent} (hu : symbolIdx ≠ u.symbolIdx) :
    (m.onBookUpdate u).snapshot symbolIdx = m.snapshot symbolIdx := by
  simp [onBookUpdate, snapshot, Finmap.lookup_insert_of_ne _ hu]

/-- The part of a snapshot that book updates set: best price and total quantity of a side. -/
def quote (m : MDGActor) (symbolIdx : ℕ) : Side → ℤ × ℕ
  | .buy => ((m.snapshot symbolIdx).bestBid, (m.snapshot symbolIdx).totalBidQty)
  | .sell => ((m.snapshot symbolIdx).bestAsk, (m.snapshot symbolIdx).totalAskQty)

lemma quote_deliver (hx : ∀ u, x ≠ .bookUpdate u) :
    (m.deliver x).quote symbolIdx s = m.quote symbolIdx s := by
  cases x with
  | marketTrade t =>
    by_cases ht : symbolIdx = t.symbolIdx
    · subst ht
      cases s <;> simp only [deliver, quote, snapshot_onTrade]
    · cases s <;> simp only [deliver, quote, snapshot_onTrade_of_ne ht]
  | bookUpdate u => exact absurd rfl (hx u)
  | execReport ev => rfl
  | refusal ev => rfl
  | clearingTrade t => rfl
  | entered orderId sessionId => rfl

lemma quote_foldl (hxs : ∀ u, .bookUpdate u ∉ xs) :
    (xs.foldl deliver m).quote symbolIdx s = m.quote symbolIdx s := by
  induction xs generalizing m with
  | nil => rfl
  | cons x xs ih =>
    rw [List.foldl_cons, ih fun u hu => hxs u (List.mem_cons_of_mem _ hu)]
    exact quote_deliver fun u hu => hxs u (by simp [hu])

/-- A book update sets the sides that have levels. -/
lemma quote_publish (a : MECoreActor) :
    (m.onBookUpdate a.publishBookUpdate).quote a.book.symbolIdx s =
      if (a.book.levels s).entries = [] then m.quote a.book.symbolIdx s
      else (a.book.best s, a.book.tenBestQty s % 2 ^ 64) := by
  have hsnap : (m.onBookUpdate a.publishBookUpdate).snapshot a.book.symbolIdx
      = ({ m.snapshot a.book.symbolIdx with symbolIdx := a.book.symbolIdx }.updateBids
          (a.book.published .buy)).updateAsks (a.book.published .sell) :=
    snapshot_onBookUpdate a.publishBookUpdate
  have hempty := Book.published_eq_nil (b := a.book) (s := s)
  have hsum := a.book.sumQty_published s
  split
  · rename_i hnil
    rw [← hempty] at hnil
    cases s with
    | buy =>
      simp only [quote, hsnap, hnil]
      cases a.book.published .sell <;> rfl
    | sell =>
      simp only [quote, hsnap, hnil]
      cases a.book.published .buy <;> rfl
  · rename_i hne
    rw [← hempty] at hne
    obtain ⟨level, levels, hlevels⟩ := List.exists_cons_of_ne_nil hne
    rw [← Book.best_published hlevels, ← hsum, hlevels]
    cases s with
    | buy =>
      simp only [quote, hsnap, hlevels]
      cases a.book.published .sell <;> rfl
    | sell =>
      simp only [quote, hsnap, hlevels]
      cases a.book.published .buy <;> rfl

/-- The part of a snapshot that trades set. -/
structure Counts (m : MDGActor) (symbolIdx : ℕ) (trades : List Trade) : Prop where
  tradeCount : (m.snapshot symbolIdx).tradeCount = trades.length
  lastTradePrice : (m.snapshot symbolIdx).lastTradePrice = (trades.getLast?.map Trade.price).getD 0

lemma Counts.deliver {h : List MECoreOutput} (hc : Counts m symbolIdx (marketTrades h))
    (hx : ∀ t ∈ marketTrades [x], t.symbolIdx = symbolIdx) :
    Counts (m.deliver x) symbolIdx (marketTrades (h ++ [x])) := by
  rw [marketTrades_append]
  cases x with
  | marketTrade t =>
    obtain rfl : t.symbolIdx = symbolIdx := hx t (by simp [marketTrades])
    rw [show marketTrades [.marketTrade t] = [t] from rfl]
    constructor
    · simp only [MDGActor.deliver, snapshot_onTrade, hc.tradeCount, List.length_append,
        List.length_singleton]
    · simp [MDGActor.deliver, snapshot_onTrade]
  | bookUpdate u =>
    rw [show marketTrades [.bookUpdate u] = [] from rfl, List.append_nil]
    by_cases hu : symbolIdx = u.symbolIdx
    · subst hu
      constructor
      · simpa [MDGActor.deliver, snapshot_onBookUpdate] using hc.tradeCount
      · simpa [MDGActor.deliver, snapshot_onBookUpdate] using hc.lastTradePrice
    · constructor
      · simpa [MDGActor.deliver, snapshot_onBookUpdate_of_ne hu] using hc.tradeCount
      · simpa [MDGActor.deliver, snapshot_onBookUpdate_of_ne hu] using hc.lastTradePrice
  | execReport ev => exact (List.append_nil (marketTrades h)).symm ▸ hc
  | refusal ev => exact (List.append_nil (marketTrades h)).symm ▸ hc
  | clearingTrade t => exact (List.append_nil (marketTrades h)).symm ▸ hc
  | entered orderId sessionId => exact (List.append_nil (marketTrades h)).symm ▸ hc

lemma Counts.foldl {h : List MECoreOutput} (hc : Counts m symbolIdx (marketTrades h))
    (hxs : ∀ t ∈ marketTrades xs, t.symbolIdx = symbolIdx) :
    Counts (xs.foldl MDGActor.deliver m) symbolIdx (marketTrades (h ++ xs)) := by
  induction xs generalizing m h with
  | nil => simpa using hc
  | cons x xs ih =>
    rw [← List.singleton_append, marketTrades_append] at hxs
    rw [← List.singleton_append, ← List.append_assoc]
    exact ih (hc.deliver fun t ht => hxs t (List.mem_append_left _ ht))
      fun t ht => hxs t (List.mem_append_right _ ht)

end MDGActor

/-! ### The snapshot and the book -/

namespace MarketDataSnapshot

/-- The snapshot shows the book, and the trades made so far. -/
structure Follows (snap : MarketDataSnapshot) (b : Book) (trades : List Trade) : Prop where
  bestBid : snap.bestBid = b.bestBid
  bestAsk : snap.bestAsk = b.bestAsk
  totalBidQty : snap.totalBidQty = b.tenBestQty .buy
  totalAskQty : snap.totalAskQty = b.tenBestQty .sell
  tradeCount : snap.tradeCount = trades.length
  lastTradePrice : snap.lastTradePrice = b.lastTradePrice

end MarketDataSnapshot

/-- The side has a level to publish, or there is nothing on show that it had to take back; and the
quantity of its ten best levels fits a `Quantity_t`. -/
def Book.Shows (b b' : Book) (s : Side) : Prop :=
  ((b'.levels s).entries ≠ [] ∨ (b.best s = 0 ∧ b.tenBestQty s = 0)) ∧ b'.tenBestQty s < 2 ^ 64

namespace MarketFeed

variable {f : MarketFeed} {h : List MECoreOutput}

/-- The snapshot of the symbol, once it exists, follows the book. -/
def Follows : MarketFeed × List MECoreOutput → Prop
  | (f, h) => ∀ snap, f.mdg.getSnapshot f.core.book.symbolIdx = some snap →
      snap.Follows f.core.book (marketTrades h)

/-- After the event, both sides are shown. -/
def KeepsShowing : MarketFeed × List MECoreOutput → MECoreEvent → Prop
  | (f, _), event => ∀ s, f.core.book.Shows (f.core.step event).1.book s

/-- What holds of a feed in any case. -/
structure Fed (f : MarketFeed) (h : List MECoreOutput) : Prop where
  core : f.core.Sound h
  counts : f.mdg.Counts f.core.book.symbolIdx (marketTrades h)
  bounded : ∀ s, (f.mdg.quote f.core.book.symbolIdx s).2 < 2 ^ 64
  unseen : f.mdg.getSnapshot f.core.book.symbolIdx = none →
    ∀ s, (f.core.book.levels s).entries = []

lemma Fed.new (symbolIdx : ℕ) (hasClearingHouse : Bool) :
    (new symbolIdx hasClearingHouse).Fed [] where
  core := .new symbolIdx hasClearingHouse
  counts := ⟨rfl, rfl⟩
  bounded s := by cases s <;> exact Nat.two_pow_pos 64
  unseen _ s := by cases s <;> rfl

lemma Fed.lastTradePrice (hf : f.Fed h) : f.core.book.lastTradePrice
    = ((marketTrades h).getLast?.map Trade.price).getD 0 := by
  obtain ⟨hist, hb, htrades, -⟩ := hf.core
  rw [htrades]
  exact hb.laws.provenance.lastTradePrice

/-- For the quotes alone it is a matter of equality, whether there is a snapshot or not. -/
lemma Fed.follows_iff (hf : f.Fed h) : Follows (f, h) ↔
    ∀ s, f.mdg.quote f.core.book.symbolIdx s = (f.core.book.best s, f.core.book.tenBestQty s) := by
  constructor
  · intro hfollows s
    cases hsnap : f.mdg.getSnapshot f.core.book.symbolIdx with
    | none =>
      have hnil := hf.unseen hsnap s
      have hzero : f.mdg.snapshot f.core.book.symbolIdx = {} := by
        rw [MDGActor.snapshot, show f.mdg.snapshots.lookup _ = none from hsnap, Option.getD_none]
      rw [Book.best_of_nil hnil, Book.tenBestQty_of_nil hnil]
      cases s <;> simp only [MDGActor.quote, hzero]
    | some snap =>
      have hsnapshot : f.mdg.snapshot f.core.book.symbolIdx = snap := by
        rw [MDGActor.snapshot, show f.mdg.snapshots.lookup _ = some snap from hsnap,
          Option.getD_some]
      have hshow := hfollows snap hsnap
      cases s with
      | buy => simp only [MDGActor.quote, hsnapshot, hshow.bestBid, hshow.totalBidQty, Book.best]
      | sell => simp only [MDGActor.quote, hsnapshot, hshow.bestAsk, hshow.totalAskQty, Book.best]
  · intro hquote snap hsnap
    have hsnapshot : f.mdg.snapshot f.core.book.symbolIdx = snap := by
      rw [MDGActor.snapshot, show f.mdg.snapshots.lookup _ = some snap from hsnap, Option.getD_some]
    have hbuy := hquote .buy
    have hsell := hquote .sell
    have hcount := hf.counts.tradeCount
    have hprice := hf.counts.lastTradePrice
    simp only [MDGActor.quote, hsnapshot, Prod.mk.injEq, Book.best] at hbuy hsell hcount hprice
    exact ⟨hbuy.1, hsell.1, hbuy.2, hsell.2, hcount, hprice.trans hf.lastTradePrice.symm⟩

/-- The quotes after an event: those of the sides that have a level, the others as they were. -/
lemma quote_step (hf : f.Fed h) (event : MECoreEvent) (s : Side) :
    (f.core.step event).1.book = f.core.book ∧ (f.step event).1.mdg = f.mdg ∨
    (f.step event).1.mdg.getSnapshot f.core.book.symbolIdx ≠ none ∧
      (f.step event).1.mdg.quote f.core.book.symbolIdx s =
        if ((f.core.step event).1.book.levels s).entries = [] then
          f.mdg.quote f.core.book.symbolIdx s
        else ((f.core.step event).1.book.best s,
          (f.core.step event).1.book.tenBestQty s % 2 ^ 64) := by
  have hsym := (MECoreActor.symbolIdx_step hf.core event).1
  rcases f.core.step_cases event with ⟨r, hr⟩ | ⟨pre, hpre, hout⟩
  · refine Or.inl ⟨by rw [hr], ?_⟩
    rw [step, hr]
    rfl
  · have hmdg : (f.step event).1.mdg = (pre.foldl MDGActor.deliver f.mdg).onBookUpdate
        (f.core.step event).1.publishBookUpdate := by
      rw [step, hout, List.foldl_append]
      rfl
    refine Or.inr ⟨?_, ?_⟩
    · rw [hmdg, MDGActor.getSnapshot, ← hsym]
      apply Option.isSome_iff_ne_none.mp
      simp [MDGActor.onBookUpdate, MECoreActor.publishBookUpdate]
    · rw [hmdg, ← hsym, MDGActor.quote_publish, MDGActor.quote_foldl hpre]

theorem Fed.step (hf : f.Fed h) (event : MECoreEvent) :
    (f.step event).1.Fed (h ++ (f.step event).2) := by
  obtain ⟨hsym, htrades⟩ := MECoreActor.symbolIdx_step hf.core event
  have hsym : (f.step event).1.core.book.symbolIdx = f.core.book.symbolIdx := hsym
  refine ⟨hf.core.step event, ?_, ?_, ?_⟩
  · rw [hsym]
    exact hf.counts.foldl htrades
  · intro s
    rw [hsym]
    rcases quote_step hf event s with ⟨-, hmdg⟩ | ⟨-, hquote⟩
    · rw [hmdg]
      exact hf.bounded s
    · rw [hquote]
      split
      · exact hf.bounded s
      · exact Nat.mod_lt _ (Nat.two_pow_pos 64)
  · intro hnone s
    rw [hsym] at hnone
    rcases quote_step hf event s with ⟨hbook, hmdg⟩ | ⟨hsome, -⟩
    · show ((f.core.step event).1.book.levels s).entries = []
      rw [hbook]
      exact hf.unseen (hmdg ▸ hnone) s
    · exact absurd hnone hsome

/-- If the snapshot follows the book before an event, it does so afterwards exactly if both sides
are shown. -/
lemma follows_step_iff (hf : f.Fed h) (hfollows : Follows (f, h)) (event : MECoreEvent) :
    Follows ((f.step event).1, h ++ (f.step event).2) ↔ KeepsShowing (f, h) event := by
  have hsym : (f.step event).1.core.book.symbolIdx = f.core.book.symbolIdx :=
    (MECoreActor.symbolIdx_step hf.core event).1
  have hbefore := hf.follows_iff.mp hfollows
  rw [(hf.step event).follows_iff, hsym]
  apply forall_congr'
  intro s
  show _ = ((f.core.step event).1.book.best s, (f.core.step event).1.book.tenBestQty s) ↔ _
  rcases quote_step hf event s with ⟨hbook, hmdg⟩ | ⟨-, hquote⟩
  · -- refused: nothing changes
    rw [hmdg, hbook, hbefore s, Book.Shows]
    refine iff_of_true rfl ⟨?_, ?_⟩
    · by_cases hnil : (f.core.book.levels s).entries = []
      · exact Or.inr ⟨Book.best_of_nil hnil, Book.tenBestQty_of_nil hnil⟩
      · exact Or.inl hnil
    · have hlt := hf.bounded s
      rwa [hbefore s] at hlt
  · rw [hquote, Book.Shows]
    split
    · rename_i hnil
      rw [hbefore s, Book.best_of_nil hnil, Book.tenBestQty_of_nil hnil, Prod.mk.injEq]
      simp [hnil]
    · rename_i hne
      simp only [Prod.mk.injEq, true_and, ne_eq, hne, not_false_eq_true, true_or]
      exact Nat.mod_eq_iff_lt (by simp)

/-- In every run, the snapshot follows the book throughout exactly if every event leaves both sides
shown. -/
theorem run_follows_iff (symbolIdx : ℕ) (hasClearingHouse : Bool) (events : List MECoreEvent) :
    Machine.Throughout (Machine.recording step) Follows (new symbolIdx hasClearingHouse, [])
        events ↔
      Machine.Along (Machine.recording step) KeepsShowing (new symbolIdx hasClearingHouse, [])
        events := by
  refine Machine.throughout_iff_along (I := fun s => s.1.Fed s.2) (fun s event hf => hf.step event)
    (fun s event hf hfollows => follows_step_iff hf hfollows event) (Fed.new _ _) ?_
  intro snap hsnap
  cases hsnap

/-- The last offer is cancelled, and stays on show. -/
theorem not_follows_emptied : ¬∀ (symbolIdx : ℕ) (hasClearingHouse : Bool)
    (events : List MECoreEvent), Machine.Throughout (Machine.recording step) Follows
      (new symbolIdx hasClearingHouse, []) events := by
  intro h
  have hlast := (h 1 false [.newOrder ⟨1, 1, .sell, .limit, .day, 10, 5, 1, 0⟩,
    .cancelOrder ⟨1, 1, 1, 1⟩]).2.2
  have hfollows := hlast ⟨1, 0, 0, 0, 10, 0, 5, 0⟩ (by decide)
  exact absurd hfollows.bestAsk (by decide)

end MarketFeed

end EuNEx
