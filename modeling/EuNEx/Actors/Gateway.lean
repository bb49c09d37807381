import EuNEx.Actors.OEG
import EuNEx.Actors.Triggers
import Mathlib.Data.Finmap

/-!
# Through the gateway

What the gateway makes of a request on its way to the matching core. `submitNewOrder` has no
argument for the stop price, so the event that it pushes has the default. A stop order is parked
with stop price zero, and what triggers it has nothing to do with the price that was asked for.
-/

namespace EuNEx

open Book

/-- The gateway, with the matching core of each symbol that `symbolMap_` maps. -/
structure Gateway where
  books : Finmap fun _ : ℕ => MECoreActor

/-- The history of the gateway: what came in and what was delivered for it, and of a new order its
id, the trades, and the stops that are converted. -/
inductive GatewayEvent where
  | delivered (received event : MECoreEvent)
  | entered (symbolIdx orderId : ℕ) (received : NewOrderEvent)
  | traded (trade : Trade)
  | converted (symbolIdx orderId : ℕ)
deriving DecidableEq

def GatewayEvent.trade? : GatewayEvent → Option Trade
  | .traded trade => some trade
  | _ => none

namespace Gateway

/-- The gateway once `mapSymbol` has been called for these symbols. -/
def mapped (symbols : List ℕ) (hasClearingHouse : Bool) : Gateway :=
  ⟨(symbols.map fun symbolIdx => (⟨symbolIdx, MECoreActor.new symbolIdx hasClearingHouse⟩ :
    Sigma fun _ : ℕ => MECoreActor)).toFinmap⟩

/-- What there is to see when a core handles a new order event: the trades of the order, then the
stops that are triggered, then their trades. -/
def observed (core : MECoreActor) (symbolIdx : ℕ) (order : Order) : List GatewayEvent :=
  let m := core.book.newOrder order
  (trades m.log).map .traded ++
    if 0 < m.book.stopOrderCount ∧ m.book.lastTradePrice ≠ 0 then
      (m.book.triggeredStops m.book.lastTradePrice).map (fun stop =>
          .converted symbolIdx stop.orderId) ++
        (trades (m.book.triggerStopOrders m.book.lastTradePrice).log).map .traded
    else []

/-- A request comes in; `event` goes to the core of its symbol. -/
def history (core : MECoreActor) : MECoreEvent → MECoreEvent → List GatewayEvent
  | .newOrder received, .newOrder event =>
    [.delivered (.newOrder received) (.newOrder event),
      .entered received.symbolIdx core.book.nextOrderId received] ++
      observed core received.symbolIdx event.order
  | received, event => [.delivered received event]

def step (g : Gateway) (received : MECoreEvent) : Gateway × List GatewayEvent :=
  match g.books.lookup received.symbolIdx with
  | none => (g, [])
  | some core =>
    let event := OEGActor.forward received
    (⟨g.books.insert received.symbolIdx (core.step event).1⟩, history core received event)

abbrev run (symbols : List ℕ) (hasClearingHouse : Bool) (events : List MECoreEvent) :
    Gateway × List GatewayEvent :=
  Machine.run step (mapped symbols hasClearingHouse) events

/-! ### Transparency -/

/-- A request is delivered as it came in; and if a stop order is converted, the symbol has traded
at a price that triggers it with the stop price that came in. -/
def Honest (pre : List GatewayEvent) : GatewayEvent → Prop
  | .delivered received event => event = received
  | .converted symbolIdx orderId => ∀ received, .entered symbolIdx orderId received ∈ pre →
      ∃ t, .traded t ∈ pre ∧ t.symbolIdx = symbolIdx ∧ triggers t.price received.order = true
  | _ => True

/-- The request loses nothing at the gateway: it is no new order with a stop price. -/
def HasNoStop : MECoreEvent → Prop
  | .newOrder event => event.stopPrice = 0
  | _ => True

lemma forward_eq_iff (received : MECoreEvent) :
    OEGActor.forward received = received ↔ HasNoStop received := by
  cases received with
  | newOrder event =>
    simp only [OEGActor.forward, OEGActor.submitNewOrder, MECoreEvent.newOrder.injEq, HasNoStop]
    constructor
    · intro heq
      rw [← heq]
    · intro hzero
      cases event
      simp_all
  | cancelOrder event => exact iff_of_true rfl trivial
  | modifyOrder event => exact iff_of_true rfl trivial

/-- The stops of a core are parked with the side and the stop price that came in, and the trades
of its book have been seen. -/
structure Tells (core : MECoreActor) (s : ℕ) (h : List GatewayEvent) : Prop where
  sound : ∃ outs, core.Sound outs ∧ ∀ t ∈ marketTrades outs, .traded t ∈ h ∧ t.symbolIdx = s
  symbolIdx : core.book.symbolIdx = s
  ids : ∀ id received, .entered s id received ∈ h → id < core.book.nextOrderId
  stops : ∀ stop ∈ core.book.stopOrders, ∀ received, .entered s stop.orderId received ∈ h →
    received.side = stop.side ∧ received.stopPrice = stop.stopPrice

variable {g : Gateway} {core : MECoreActor} {s : ℕ} {h : List GatewayEvent}
  {received : MECoreEvent} {event : NewOrderEvent}

/-- The core looks at its stops, or it does not. -/
lemma observed_cases (core : MECoreActor) (s : ℕ) (order : Order) :
    ((core.book.newOrder order).book.lastTradePrice ≠ 0 ∧ observed core s order
      = (trades (core.book.newOrder order).log).map .traded ++
        (((core.book.newOrder order).book.triggeredStops
            (core.book.newOrder order).book.lastTradePrice).map (fun stop =>
              .converted s stop.orderId) ++
          (trades ((core.book.newOrder order).book.triggerStopOrders
            (core.book.newOrder order).book.lastTradePrice).log).map .traded)) ∨
    observed core s order = (trades (core.book.newOrder order).log).map .traded := by
  by_cases hfires : 0 < (core.book.newOrder order).book.stopOrderCount ∧
      (core.book.newOrder order).book.lastTradePrice ≠ 0
  · exact Or.inl ⟨hfires.2, by simp only [observed, if_pos hfires]⟩
  · exact Or.inr (by simp only [observed, if_neg hfires, List.append_nil])

lemma traded_mem_observed {t : Trade} {order : Order} :
    .traded t ∈ observed core s order ↔ t ∈ trades (core.enterOrder order).log := by
  rcases core.enterOrder_cases order with ⟨hfires, heq⟩ | ⟨hquiet, heq⟩
  · rw [heq]
    simp only [observed, if_pos hfires]
    simp
  · rw [heq]
    simp only [observed, if_neg hquiet]
    simp

lemma entered_mem_history {id : ℕ} {s' : ℕ} {event' : NewOrderEvent} :
    .entered s' id event' ∈ history core (.newOrder event) (.newOrder event) ↔
      s' = event.symbolIdx ∧ id = core.book.nextOrderId ∧ event' = event := by
  have hnone : .entered s' id event' ∉ observed core event.symbolIdx event.order := by
    rcases observed_cases core event.symbolIdx event.order with ⟨-, heq⟩ | heq <;> simp [heq]
  simp [history, hnone]

/-- The new id of an event is the next one, and is used up. -/
lemma nextOrderId_enterOrder {hist : List BookEvent} (hb : core.book.Sound hist) (order : Order) :
    core.book.nextOrderId < (core.enterOrder order).book.nextOrderId := by
  obtain ⟨log, hlog⟩ := core.enterOrder_entry hb.shape.levels order
  have hentry : core.book.nextOrderId ∈ entryIds (hist ++ (core.enterOrder order).log) :=
    mem_entryIds.mpr ⟨core.book.entered order, by simp [hlog], rfl⟩
  exact ((MECoreActor.sound_enterOrder hb order).laws.ids.mem_entryIds_iff.mp hentry).2

/-- Of the stops that are parked once the order is entered, the records are right. -/
lemma Tells.parkedAfter (ht : Tells core event.symbolIdx h) {stop : Order}
    (hstop : stop ∈ core.book.parkedAfter event.order) {event' : NewOrderEvent}
    (hrec : .entered event.symbolIdx stop.orderId event' ∈
      h ++ history core (.newOrder event) (.newOrder event)) :
    event'.side = stop.side ∧ event'.stopPrice = stop.stopPrice := by
  obtain ⟨outs, ⟨hist, hb, -, -⟩, -⟩ := ht.sound
  rw [List.mem_append, entered_mem_history] at hrec
  rcases List.mem_append.mp hstop with hold | hown
  · have hlt : stop.orderId < core.book.nextOrderId :=
      hb.laws.ids.live_lt (mem_live.mpr (Or.inr hold))
    rcases hrec with hrec | ⟨-, hid, -⟩
    · exact ht.stops stop hold event' hrec
    · exact absurd hid hlt.ne
  · have hown : stop = core.book.entered event.order := by
      split at hown
      · exact List.mem_singleton.mp hown
      · cases hown
    rw [hown] at hrec ⊢
    rcases hrec with hrec | ⟨-, -, rfl⟩
    · exact absurd (ht.ids _ _ hrec) (lt_irrefl _)
    · exact ⟨rfl, rfl⟩

lemma Tells.newOrder (ht : Tells core event.symbolIdx h) :
    Tells (core.step (.newOrder event)).1 event.symbolIdx
      (h ++ history core (.newOrder event) (.newOrder event)) := by
  obtain ⟨outs, hs, htrades⟩ := ht.sound
  have hsym := MECoreActor.symbolIdx_step hs (.newOrder event)
  have hnext : core.book.nextOrderId < (core.step (.newOrder event)).1.book.nextOrderId := by
    obtain ⟨hist, hb, -, -⟩ := hs
    exact nextOrderId_enterOrder hb event.order
  refine ⟨⟨_, hs.step (.newOrder event), fun t ht' => ?_⟩, hsym.1.trans ht.symbolIdx, ?_, ?_⟩
  · rw [marketTrades_append, List.mem_append] at ht'
    rcases ht' with hold | hnew
    · exact ⟨List.mem_append_left _ (htrades t hold).1, (htrades t hold).2⟩
    · refine ⟨List.mem_append_right _ ?_, (hsym.2 t hnew).trans ht.symbolIdx⟩
      rw [MECoreActor.outputs_newOrder, marketTrades_append, MECoreActor.marketTrades_callback,
        List.mem_append] at hnew
      have hlog : t ∈ trades (core.enterOrder event.order).log := by
        rcases hnew with hnew | hnew
        · exact hnew
        · cases hnew
      exact List.mem_append_right _ (traded_mem_observed.mpr hlog)
  · intro id event' hrec
    rw [List.mem_append, entered_mem_history] at hrec
    rcases hrec with hrec | ⟨-, rfl, -⟩
    · exact (ht.ids id event' hrec).trans hnext
    · exact hnext
  · intro stop hstop event' hrec
    obtain ⟨hist, hb, -, -⟩ := hs
    have hafter : (core.step (.newOrder event)).1.book.stopOrders
        = (core.enterOrder event.order).book.stopOrders := rfl
    rw [hafter, (MECoreActor.enterOrder_missed hb event.order).1] at hstop
    exact ht.parkedAfter (List.mem_filter.mp hstop).1 hrec

/-- A request that is no new order brings in nothing. -/
lemma Tells.withdraws (ht : Tells core s h)
    (hwithdraws : ∀ event, received ≠ .newOrder event) :
    Tells (core.step received).1 s (h ++ [.delivered received received]) := by
  obtain ⟨outs, hs, htrades⟩ := ht.sound
  have hsym := MECoreActor.symbolIdx_step hs received
  have hshape : core.book.Shape := by
    obtain ⟨hist, hb, -, -⟩ := hs
    exact hb.shape
  have hnone : marketTrades (core.step received).2 = [] ∧
      core.book.nextOrderId ≤ (core.step received).1.book.nextOrderId ∧
      ∀ stop ∈ (core.step received).1.book.stopOrders, stop ∈ core.book.stopOrders := by
    cases received with
    | newOrder event => exact absurd rfl (hwithdraws event)
    | cancelOrder event =>
      cases hc : core.book.cancelOrder event.orderId with
      | none =>
        rw [MECoreActor.step_cancelOrder_none hc]
        exact ⟨rfl, le_rfl, fun stop hstop => hstop⟩
      | some c =>
        have hrem := removes_of_cancelOrder hshape hc
        rw [MECoreActor.step_cancelOrder_some hc]
        exact ⟨rfl, hrem.nextOrderId.ge, hrem.stopOrders_subset⟩
    | modifyOrder event =>
      cases hc : core.book.cancelOrder event.orderId with
      | none =>
        rw [MECoreActor.step_modifyOrder_none hc]
        exact ⟨rfl, le_rfl, fun stop hstop => hstop⟩
      | some c =>
        have hrem := removes_of_cancelOrder hshape hc
        obtain ⟨r, -, hstep⟩ := MECoreActor.step_modifyOrder_some hc
        have hkept : (c.replaced event.newPrice event.newQuantity).book.stopOrders
            = c.book.stopOrders := insertResting_stopOrders
        have hnext : (c.replaced event.newPrice event.newQuantity).book.nextOrderId
            = c.book.nextOrderId + 1 := insertResting_nextOrderId
        rw [hstep]
        refine ⟨rfl, ?_, fun stop hstop => hrem.stopOrders_subset stop (hkept ▸ hstop)⟩
        show core.book.nextOrderId ≤ (c.replaced event.newPrice event.newQuantity).book.nextOrderId
        rw [hnext, hrem.nextOrderId]
        exact Nat.le_succ _
  refine ⟨⟨_, hs.step received, fun t ht' => ?_⟩, hsym.1.trans ht.symbolIdx, ?_, ?_⟩
  · rw [marketTrades_append, hnone.1, List.append_nil] at ht'
    exact ⟨List.mem_append_left _ (htrades t ht').1, (htrades t ht').2⟩
  · intro id event' hrec
    exact (ht.ids id event' (by simpa using hrec)).trans_le hnone.2.1
  · intro stop hstop event' hrec
    exact ht.stops stop (hnone.2.2 stop hstop) event' (by simpa using hrec)

/-- What another core does is no news. -/
lemma Tells.other (ht : Tells core s h) {evs : List GatewayEvent}
    (hother : ∀ id event', .entered s id event' ∉ evs) : Tells core s (h ++ evs) := by
  obtain ⟨outs, hs, htrades⟩ := ht.sound
  have hold : ∀ id event', .entered s id event' ∈ h ++ evs → .entered s id event' ∈ h := by
    intro id event' hrec
    exact (List.mem_append.mp hrec).resolve_right (hother id event')
  exact ⟨⟨outs, hs, fun t ht' => ⟨List.mem_append_left _ (htrades t ht').1, (htrades t ht').2⟩⟩,
    ht.symbolIdx, fun id event' hrec => ht.ids id event' (hold id event' hrec),
    fun stop hstop event' hrec => ht.stops stop hstop event' (hold _ event' hrec)⟩

/-- The price that triggers stops is that of a trade that has been seen. -/
lemma Tells.exists_trade (ht : Tells core event.symbolIdx h)
    (hprice : (core.book.newOrder event.order).book.lastTradePrice ≠ 0) :
    ∃ t, (.traded t ∈ h ∨ t ∈ trades (core.book.newOrder event.order).log) ∧
      t.symbolIdx = event.symbolIdx ∧
      t.price = (core.book.newOrder event.order).book.lastTradePrice := by
  obtain ⟨outs, ⟨hist, hb, heq, -⟩, htrades⟩ := ht.sound
  have hlast : (core.book.newOrder event.order).book.lastTradePrice
      = lastPrice (hist ++ (core.book.newOrder event.order).log) :=
    (hb.newOrder event.order).laws.provenance.lastTradePrice
  rw [hlast] at hprice ⊢
  rw [lastPrice] at hprice ⊢
  cases ht' : (trades (hist ++ (core.book.newOrder event.order).log)).getLast? with
  | none =>
    rw [ht'] at hprice
    exact absurd rfl hprice
  | some t =>
    have hmem := List.mem_of_getLast? ht'
    rw [trades_append, List.mem_append] at hmem
    rcases hmem with hmem | hmem
    · obtain ⟨hseen, hsym⟩ := htrades t (heq ▸ hmem)
      exact ⟨t, Or.inl hseen, hsym, rfl⟩
    · have hsym := symbolIdx_newOrder hb.shape.levels (mem_trades.mp hmem)
      exact ⟨t, Or.inr hmem, hsym.trans ht.symbolIdx, rfl⟩

/-- A converted stop has seen a trade that triggers it, with the stop price that came in. -/
lemma Tells.converted (ht : Tells core event.symbolIdx h)
    (hprice : (core.book.newOrder event.order).book.lastTradePrice ≠ 0) {stop : Order}
    (hstop : stop ∈ (core.book.newOrder event.order).book.triggeredStops
      (core.book.newOrder event.order).book.lastTradePrice) {pre : List GatewayEvent}
    (hseen : ∀ x ∈ h, x ∈ pre)
    (htraded : ∀ t ∈ trades (core.book.newOrder event.order).log, .traded t ∈ pre)
    (hrecs : ∀ s id event', .entered s id event' ∈ pre → .entered s id event' ∈
      h ++ history core (.newOrder event) (.newOrder event)) :
    Honest pre (.converted event.symbolIdx stop.orderId) := by
  intro event' hrec
  have hOK : ∀ s, (core.book.levels s).OK := by
    obtain ⟨outs, ⟨hist, hb, -, -⟩, -⟩ := ht.sound
    exact hb.shape.levels
  obtain ⟨hparked, htriggers⟩ := List.mem_filter.mp hstop
  rw [stopOrders_newOrder hOK] at hparked
  obtain ⟨hside, hstopPrice⟩ := ht.parkedAfter hparked (hrecs _ _ _ hrec)
  obtain ⟨t, hmem, hsym, heq⟩ := ht.exists_trade hprice
  refine ⟨t, ?_, hsym, ?_⟩
  · rcases hmem with hmem | hmem
    · exact hseen _ hmem
    · exact htraded t hmem
  · have hside : event'.order.side = stop.side := hside
    have hstopPrice : event'.order.stopPrice = stop.stopPrice := hstopPrice
    rw [heq, triggers, hside, hstopPrice]
    exact htriggers

/-- All that a new order event brings is honest if it loses nothing at the gateway. -/
lemma Tells.honest (ht : Tells core event.symbolIdx h) :
    Machine.Always (fun pre => Honest (h ++ pre))
      (history core (.newOrder event) (.newOrder event)) := by
  have hquiet : ∀ ts : List Trade, ∀ P : List GatewayEvent → List GatewayEvent,
      Machine.Always (fun pre => Honest (P pre)) (ts.map GatewayEvent.traded) := by
    intro ts P
    apply Machine.always_of_mem
    intro x hx pre _
    obtain ⟨t, -, rfl⟩ := List.mem_map.mp hx
    trivial
  rw [history, Machine.always_append]
  constructor
  · apply Machine.always_of_mem
    intro x hx pre _
    rcases List.mem_cons.mp hx with rfl | hx
    · rfl
    · rw [List.mem_singleton.mp hx]
      trivial
  · rcases observed_cases core event.symbolIdx event.order with ⟨hprice, heq⟩ | heq
    · rw [heq, Machine.always_append, Machine.always_append]
      refine ⟨hquiet _ _, Machine.always_of_mem fun x hx pre hpre => ?_, hquiet _ _⟩
      obtain ⟨stop, hstop, rfl⟩ := List.mem_map.mp hx
      refine ht.converted hprice hstop (fun y hy => by simp [hy]) (fun t ht' => by simp [ht']) ?_
      intro s id event' hrec
      have hnone : .entered s id event' ∉ pre := by
        intro hmem
        obtain ⟨stop', -, heq'⟩ := List.mem_map.mp (hpre _ hmem)
        cases heq'
      rw [history, heq]
      simp only [List.mem_append, hnone, or_false] at hrec ⊢
      tauto
    · rw [heq]
      exact hquiet _ _

/-! ### Runs -/

/-- All cores tell the truth. -/
def AllTell (symbols : List ℕ) (g : Gateway) (h : List GatewayEvent) : Prop :=
  (∀ s, (g.books.lookup s).isSome ↔ s ∈ symbols) ∧
    ∀ s core, g.books.lookup s = some core → Tells core s h

/-- The request loses nothing at the gateway, or is for no mapped symbol. -/
def Whole (symbols : List ℕ) (received : MECoreEvent) : Prop :=
  received.symbolIdx ∈ symbols → HasNoStop received

lemma history_self (core : MECoreActor) (received : MECoreEvent) :
    (∃ event, received = .newOrder event) ∨
      (∀ event, received ≠ .newOrder event) ∧
        history core received received = [.delivered received received] := by
  cases received with
  | newOrder event => exact Or.inl ⟨event, rfl⟩
  | cancelOrder event => exact Or.inr ⟨fun _ => by simp, rfl⟩
  | modifyOrder event => exact Or.inr ⟨fun _ => by simp, rfl⟩

/-- A request that loses nothing is handled honestly. -/
lemma AllTell.step {symbols : List ℕ} (ht : AllTell symbols g h) (hwhole : Whole symbols received)
    (hall : Machine.Always Honest h) :
    AllTell symbols (g.step received).1 (h ++ (g.step received).2) ∧
      Machine.Always Honest (h ++ (g.step received).2) := by
  obtain ⟨hmapped, htells⟩ := ht
  rw [Gateway.step]
  cases hlookup : g.books.lookup received.symbolIdx with
  | none => simpa using ⟨⟨hmapped, htells⟩, hall⟩
  | some core =>
    have hsym : received.symbolIdx ∈ symbols := (hmapped _).mp (by simp [hlookup])
    have hcore := htells _ core hlookup
    simp only [(forward_eq_iff received).mpr (hwhole hsym)]
    have hown :
        Tells (core.step received).1 received.symbolIdx (h ++ history core received received) ∧
        Machine.Always Honest (h ++ history core received received) ∧
        ∀ s id event', .entered s id event' ∈ history core received received →
          s = received.symbolIdx := by
      rw [Machine.always_append]
      rcases history_self core received with ⟨event, rfl⟩ | ⟨hne, heq⟩
      · exact ⟨hcore.newOrder, ⟨hall, hcore.honest⟩, fun s id event' hrec =>
          (entered_mem_history.mp hrec).1⟩
      · rw [heq]
        refine ⟨hcore.withdraws hne, ⟨hall, Machine.always_singleton.mpr rfl⟩, ?_⟩
        intro s id event' hrec
        simp at hrec
    refine ⟨⟨fun s => ?_, fun s core' hcore' => ?_⟩, hown.2.1⟩
    · by_cases hs : s = received.symbolIdx
      · rw [hs, Finmap.lookup_insert]
        simpa using hsym
      · rw [Finmap.lookup_insert_of_ne _ hs]
        exact hmapped s
    · by_cases hs : s = received.symbolIdx
      · rw [hs, Finmap.lookup_insert, Option.some.injEq] at hcore'
        rw [hs, ← hcore']
        exact hown.1
      · rw [Finmap.lookup_insert_of_ne _ hs] at hcore'
        exact (htells s core' hcore').other fun id event' hrec =>
          hs (hown.2.2 s id event' hrec)

/-- The gateway maps the symbols that it mapped before. -/
lemma isSome_step (g : Gateway) (received : MECoreEvent) (s : ℕ) :
    ((g.step received).1.books.lookup s).isSome = (g.books.lookup s).isSome := by
  rw [Gateway.step]
  cases hlookup : g.books.lookup received.symbolIdx with
  | none => rfl
  | some core =>
    by_cases hs : s = received.symbolIdx
    · rw [hs, Finmap.lookup_insert, hlookup]
      rfl
    · rw [Finmap.lookup_insert_of_ne _ hs]

/-- What is delivered for a request to a mapped symbol. -/
lemma delivered_mem_run {events : List MECoreEvent} (hmem : received ∈ events)
    (hmapped : (g.books.lookup received.symbolIdx).isSome) :
    .delivered received (OEGActor.forward received) ∈ (Machine.run step g events).2 := by
  induction events generalizing g with
  | nil => cases hmem
  | cons event events ih =>
    rw [Machine.run_cons, List.mem_append]
    rcases List.mem_cons.mp hmem with rfl | hmem
    · obtain ⟨core, hcore⟩ := Option.isSome_iff_exists.mp hmapped
      apply Or.inl
      cases received <;> simp [Gateway.step, hcore, history, OEGActor.forward,
        OEGActor.submitNewOrder, OEGActor.submitCancel, OEGActor.submitModify]
    · apply Or.inr
      apply ih hmem
      rwa [isSome_step]

lemma lookup_mapped (symbols : List ℕ) (hasClearingHouse : Bool) (s : ℕ) :
    (mapped symbols hasClearingHouse).books.lookup s
      = if s ∈ symbols then some (.new s hasClearingHouse) else none := by
  rw [mapped, Finmap.dlookup_list_toFinmap]
  induction symbols with
  | nil => rfl
  | cons symbolIdx symbols ih =>
    rw [List.map_cons]
    by_cases hs : s = symbolIdx
    · rw [hs, List.dlookup_cons_eq, if_pos List.mem_cons_self]
    · rw [List.dlookup_cons_ne _ _ hs, ih]
      simp [hs]

lemma allTell_mapped (symbols : List ℕ) (hasClearingHouse : Bool) :
    AllTell symbols (mapped symbols hasClearingHouse) [] := by
  constructor
  · intro s
    rw [lookup_mapped]
    by_cases hs : s ∈ symbols <;> simp [hs]
  · intro s core hcore
    rw [lookup_mapped] at hcore
    split at hcore
    · cases hcore
      exact ⟨⟨[], MECoreActor.Sound.new s hasClearingHouse, by simp [marketTrades]⟩, rfl,
        by simp, fun stop hstop => by cases hstop⟩
    · cases hcore

/-- In every run the gateway is transparent exactly if no new order for a mapped symbol comes with
a stop price. -/
theorem run_honest_iff (symbols : List ℕ) (hasClearingHouse : Bool) (events : List MECoreEvent) :
    Machine.Always Honest (run symbols hasClearingHouse events).2 ↔
      ∀ received ∈ events, Whole symbols received := by
  have hstart := allTell_mapped symbols hasClearingHouse
  constructor
  · intro hall received hmem hsym
    have hdelivered := delivered_mem_run hmem ((hstart.1 _).mpr hsym)
    obtain ⟨pre, post, heq⟩ := List.append_of_mem hdelivered
    exact (forward_eq_iff received).mp (hall pre _ post heq)
  · intro hwhole
    have halong : Machine.Along step (fun _ received => Whole symbols received)
        (mapped symbols hasClearingHouse) events := Machine.along_of_forall hwhole
    have hrun := Machine.run_induction (h := [])
      (Q := fun g h => AllTell symbols g h ∧ Machine.Always Honest h)
      (fun g h received hC hQ => hQ.1.step hC hQ.2) halong ⟨hstart, Machine.always_nil⟩
    exact hrun.2

/-- A buy stop at 100 is delivered without its stop price, and converted after a trade at 10. -/
theorem not_honest_stop : ¬∀ (symbols : List ℕ) (hasClearingHouse : Bool)
    (events : List MECoreEvent),
    Machine.Always Honest (run symbols hasClearingHouse events).2 := by
  intro h
  let events : List MECoreEvent := [.newOrder ⟨1, 1, .sell, .limit, .day, 10, 5, 1, 0⟩,
    .newOrder ⟨2, 1, .buy, .limit, .day, 10, 5, 2, 0⟩,
    .newOrder ⟨3, 1, .buy, .stopMarket, .day, 0, 5, 3, 100⟩]
  let pre := (run [1] false events).2.take 7
  obtain ⟨t, ht, -, htriggers⟩ := h [1] false events pre (.converted 1 3) [] (by decide +kernel)
    ⟨3, 1, .buy, .stopMarket, .day, 0, 5, 3, 100⟩ (by decide +kernel)
  have hten : ∀ t ∈ pre.filterMap GatewayEvent.trade?, t.price = 10 := by decide +kernel
  rw [triggers, hten t (List.mem_filterMap.mpr ⟨_, ht, rfl⟩)] at htriggers
  cases htriggers

end Gateway

end EuNEx
