import EuNEx.Actors.AITrader
import EuNEx.Actors.Gateway
import EuNEx.Actors.Positions
import EuNEx.Book.DayLimits
import EuNEx.Lib.Window

/-!
# The program

`main.cpp`: the exchange with the clearing house and the AI trader. The main thread submits the
seed orders, and then gives the members of the AI trader their turns, round after round. FIX
clients come and go meanwhile; what is sent to them is sent at once, and no send fails. The AI
trader is subscribed to execution reports only, so it never hears of a book or of a trade. A run of
the program is taken apart here: each actor ends in the state that it would reach alone, from what
it is sent.
-/

namespace EuNEx

open Random (uniform uniform_mem)

structure SeedOrder where
  sym : ℕ
  side : Side
  price : ℚ
  qty : ℕ

/-- What the clearing house hears of what a matching core pushes. -/
def ClearingHouseActor.deliver (a : ClearingHouseActor) : MECoreOutput → ClearingHouseActor
  | .clearingTrade trade => a.onEvent .int64 trade
  | _ => a

/-- The actors, and where the main thread is: `seeds` are still to be submitted, and `members` are
the members of the AI trader, with the one first whose turn is next. -/
structure Program where
  exchange : Exchange
  clearing : ClearingHouseActor
  trader : AITraderActor
  seeds : List NewOrderEvent
  members : List AITraderMember

inductive ProgramInput where
  /-- a FIX client connects -/
  | accept
  /-- a FIX message arrives on a session -/
  | message (sessionId : ℕ) (msg : TagMap)
  /-- a FIX client is gone -/
  | close (sessionId : ℕ)
  /-- the main thread goes on -/
  | proceed (draws : Draws)

namespace Program

variable (px : PriceText) (p : Program)

/-! ### Requests -/

def deliver (out : MECoreOutput) : Option Program :=
  (p.exchange.deliver px out).map fun x =>
    { p with exchange := x, clearing := p.clearing.deliver out }

/-- A request comes to the gateway. -/
def submit (event : MECoreEvent) : Option Program :=
  match p.exchange.books.lookup event.symbolIdx with
  | none => some p
  | some core =>
    let r := core.step (OEGActor.forward event)
    r.2.foldlM (deliver px)
      { p with exchange :=
          { p.exchange with books := p.exchange.books.insert event.symbolIdx r.1 } }

/-- The request that a FIX message makes. -/
def request (sess : FIXSession) (msg : TagMap) : Option MECoreEvent :=
  let msgType := getTag msg 35 []
  if msgType = "D".toList then some (.newOrder (handleNewOrderSingle px sess msg))
  else if msgType = "F".toList then some (.cancelOrder (handleCancelRequest sess msg))
  else if msgType = "G".toList then
    some (.modifyOrder (handleCancelReplaceRequest px sess msg))
  else none

def handleMessage (sess : FIXSession) (msg : TagMap) : Option Program :=
  match request px sess msg with
  | some event => p.submit px event
  | none => (p.exchange.handleMessage px sess msg).map fun x => { p with exchange := x }

/-- One message in `clientRecvLoop`: take the lock, find the session, handle, release. -/
def recvMessage (sessionId : ℕ) (msg : TagMap) : Option Program :=
  match p.exchange.fix.sessions.lookup sessionId with
  | none => some p
  | some sess =>
    if sess.receiving then
      (p.exchange.fix.lock.bind fun fix =>
        handleMessage px { p with exchange := { p.exchange with fix := fix } } sess msg).map
          fun p => { p with exchange := { p.exchange with fix := p.exchange.fix.unlock } }
    else some p

/-! ### The main thread -/

/-- The loop over `seeds`, whose last turn is followed by `clearReports`. -/
def seed (event : NewOrderEvent) (rest : List NewOrderEvent) : Option Program :=
  (p.submit px (.newOrder event)).map fun p =>
    { p with
      seeds := rest
      exchange := if rest = [] then
        { p.exchange with oeg := { p.exchange.oeg with reports := [] } } else p.exchange }

/-- The turn of a member in `tradeRound`, and what it pushes. -/
def turn (member : AITraderMember) (rest : List AITraderMember) (draws : Draws) :
    Option Program × List NewOrderEvent :=
  let r := p.trader.step (.turn member draws)
  let events := r.2.map AITraderActor.Pushed.event
  (events.foldlM (fun p event => p.submit px (.newOrder event))
    { p with trader := r.1, members := rest ++ [member] }, events)

/-- What the main thread does next, and the orders it sends to the gateway. -/
def proceed (draws : Draws) : Option Program × List NewOrderEvent :=
  match p.seeds, p.members with
  | event :: rest, _ => (p.seed px event rest, [event])
  | [], member :: rest => p.turn px member rest draws
  | [], [] => (some p, [])

/-- The program, or `none` once a thread hangs, as it waits for `sessionMutex_`, which it holds: the
run is followed no further. -/
def step (px : PriceText) : Option Program → ProgramInput → Option Program × List NewOrderEvent
  | none, _ => (none, [])
  | some p, .accept =>
    (p.exchange.fix.accept.map fun fix => { p with exchange := { p.exchange with fix := fix } }, [])
  | some p, .message sessionId msg => (p.recvMessage px sessionId msg, [])
  | some p, .close sessionId =>
    ((p.exchange.fix.close sessionId).map fun fix =>
      { p with exchange := { p.exchange with fix := fix } }, [])
  | some p, .proceed draws => p.proceed px draws

/-! ### The start -/

def seedOrders : List SeedOrder :=
  [⟨1, .sell, 155, 100⟩, ⟨1, .sell, 309 / 2, 200⟩, ⟨1, .buy, 307 / 2, 150⟩, ⟨1, .buy, 153, 100⟩,
   ⟨2, .sell, 325, 100⟩, ⟨2, .sell, 649 / 2, 150⟩, ⟨2, .buy, 647 / 2, 200⟩, ⟨2, .buy, 323, 100⟩,
   ⟨3, .sell, 142, 100⟩, ⟨3, .sell, 283 / 2, 200⟩, ⟨3, .buy, 281 / 2, 150⟩, ⟨3, .buy, 140, 100⟩,
   ⟨4, .sell, 376, 80⟩, ⟨4, .sell, 751 / 2, 120⟩, ⟨4, .buy, 749 / 2, 100⟩, ⟨4, .buy, 374, 80⟩,
   ⟨5, .sell, 202, 100⟩, ⟨5, .sell, 403 / 2, 150⟩, ⟨5, .buy, 401 / 2, 120⟩, ⟨5, .buy, 200, 100⟩,
   ⟨6, .sell, 321, 90⟩, ⟨6, .sell, 641 / 2, 130⟩, ⟨6, .buy, 639 / 2, 110⟩, ⟨6, .buy, 319, 80⟩,
   ⟨7, .sell, 147, 60⟩, ⟨7, .sell, 293 / 2, 100⟩, ⟨7, .buy, 291 / 2, 80⟩, ⟨7, .buy, 145, 60⟩]

def seedSession : ℕ := 200

/-- The seed orders as they are submitted. -/
def seedEvents : List NewOrderEvent :=
  seedOrders.zipIdx.map fun (s, k) =>
    { clOrdId := k + 1
      symbolIdx := s.sym
      side := s.side
      ordType := .limit
      tif := .day
      price := toFixedPrice s.price
      quantity := s.qty
      sessionId := seedSession }

/-- The sessions of the AI trader and of the FIX gateway, with their members. -/
def sessionPairs : List (ℕ × ℕ) :=
  ((List.range 10).map fun i => (200 + i, i + 1)) ++ (List.range 10).map fun i => (100 + i, i + 1)

/-- The program when all actors are wired. -/
def main : Program where
  exchange := Exchange.main
  clearing := ClearingHouseActor.mapped sessionPairs
  trader := { symbols := Exchange.allSymbols }
  seeds := seedEvents
  members := AITraderActor.initMembers

end Program

/-! ### What an actor hears -/

lemma ClearingHouseActor.run_eq_foldl {arith : Arithmetic} {a : ClearingHouseActor}
    {trades : List Trade} :
    (Machine.run (ClearingHouseActor.step arith) a trades).1 = trades.foldl (onEvent arith) a := by
  induction trades generalizing a with
  | nil => rfl
  | cons t trades ih => exact ih

namespace MDGActor

variable {m m' : MDGActor} {symbolIdx : ℕ} {x : MECoreOutput} {xs : List MECoreOutput}

/-- The snapshot of a symbol after a push depends on the snapshot before it, and on nothing else. -/
lemma snapshot_deliver_congr (h : m.snapshot symbolIdx = m'.snapshot symbolIdx) :
    (m.deliver x).snapshot symbolIdx = (m'.deliver x).snapshot symbolIdx := by
  cases x with
  | marketTrade t =>
    by_cases ht : symbolIdx = t.symbolIdx
    · subst ht
      simp only [deliver, snapshot_onTrade, h]
    · simpa only [deliver, snapshot_onTrade_of_ne ht] using h
  | bookUpdate u =>
    by_cases hu : symbolIdx = u.symbolIdx
    · subst hu
      simp only [deliver, snapshot_onBookUpdate, h]
    · simpa only [deliver, snapshot_onBookUpdate_of_ne hu] using h
  | _ => exact h

lemma snapshot_foldl_congr (h : m.snapshot symbolIdx = m'.snapshot symbolIdx) :
    (xs.foldl deliver m).snapshot symbolIdx = (xs.foldl deliver m').snapshot symbolIdx := by
  induction xs generalizing m m' with
  | nil => exact h
  | cons x xs ih => exact ih (snapshot_deliver_congr h)

/-- Pushes about other symbols leave a snapshot alone. -/
lemma snapshot_foldl_of_ne (htrades : ∀ t ∈ marketTrades xs, symbolIdx ≠ t.symbolIdx)
    (hupdates : ∀ u, .bookUpdate u ∈ xs → symbolIdx ≠ u.symbolIdx) :
    (xs.foldl deliver m).snapshot symbolIdx = m.snapshot symbolIdx := by
  induction xs generalizing m with
  | nil => rfl
  | cons x xs ih =>
    rw [← List.singleton_append, marketTrades_append] at htrades
    rw [List.foldl_cons, ih (fun t ht => htrades t (List.mem_append_right _ ht))
      fun u hu => hupdates u (List.mem_cons_of_mem _ hu)]
    cases x with
    | marketTrade t => exact snapshot_onTrade_of_ne (htrades t (by simp [marketTrades]))
    | bookUpdate u => exact snapshot_onBookUpdate_of_ne (hupdates u List.mem_cons_self)
    | _ => rfl

/-- The recent trades are a window on all trades. -/
lemma recentTrades_foldl : (xs.foldl deliver m).recentTrades
    = (marketTrades xs).foldl (Window.push maxRecentTrades) m.recentTrades := by
  induction xs generalizing m with
  | nil => rfl
  | cons x xs ih => cases x <;> exact ih

end MDGActor

namespace MECoreActor

variable {a : MECoreActor} {h : List MECoreOutput}

/-- The book updates of a core are about its symbol. -/
lemma symbolIdx_bookUpdate (hs : a.Sound h) (event : MECoreEvent) {u : BookUpdateEvent}
    (hu : .bookUpdate u ∈ (a.step event).2) : u.symbolIdx = a.book.symbolIdx := by
  rcases a.step_cases event with ⟨r, hr⟩ | ⟨pre, hpre, hout⟩
  · rw [hr] at hu
    simp at hu
  · rw [hout, List.mem_append, List.mem_singleton] at hu
    rcases hu with hu | hu
    · exact absurd hu (hpre u)
    · cases hu
      exact (symbolIdx_step hs event).1

/-- With a clearing house, it hears of the trades that market data hears of. -/
lemma clearing_newOrder (hc : a.hasClearingHouse = true) (event : NewOrderEvent)
    (c : ClearingHouseActor) :
    (a.step (.newOrder event)).2.foldl ClearingHouseActor.deliver c
      = (marketTrades (a.step (.newOrder event)).2).foldl (ClearingHouseActor.onEvent .int64)
          c := by
  have hlog : ∀ (log : List BookEvent) (c : ClearingHouseActor),
      (log.flatMap (a.callback event.sessionId)).foldl ClearingHouseActor.deliver c
        = (trades log).foldl (ClearingHouseActor.onEvent .int64) c := by
    intro log
    induction log with
    | nil => exact fun c => rfl
    | cons ev log ih =>
      intro c
      rw [List.flatMap_cons, List.foldl_append, ih, ← List.singleton_append, trades_append,
        List.foldl_append]
      cases ev with
      | trade t =>
        simp only [callback, hc, if_true]
        rfl
      | _ => rfl
  rw [outputs_newOrder, List.foldl_append, hlog, marketTrades_append, marketTrades_callback,
    show marketTrades [.bookUpdate _] = [] from rfl, List.append_nil]
  rfl

end MECoreActor

/-- The symbol that is drawn is one of those that there are. -/
lemma AITraderActor.symbol_mem {t : AITraderActor} {draws : Draws} (h : t.symbols ≠ []) :
    t.symbol draws ∈ t.symbols := by
  have hpos : 0 < t.symbols.length := List.length_pos_iff.mpr h
  obtain ⟨hlo, hhi⟩ := uniform_mem 0 (t.symbols.length - 1) (by omega) draws.symbol
  have hlt : (uniform 0 (t.symbols.length - 1) draws.symbol).toNat < t.symbols.length := by omega
  rw [symbol, List.getD_eq_getElem?_getD, List.getElem?_eq_getElem hlt, Option.getD_some]
  exact List.getElem_mem hlt

namespace Exchange

variable {px : PriceText} {x x' : Exchange} {event : ExecReportEvent}

/-- A report changes neither a book nor market data. -/
lemma onExecReport_frame (hx : x.onExecReport px event = some x') :
    x'.books = x.books ∧ x'.mdg = x.mdg := by
  refine Machine.foldlM_keeps (P := fun x' => x'.books = x.books ∧ x'.mdg = x.mdg) ?_ hx
    ⟨rfl, rfl⟩
  intro y subscriber y' hy hnotify
  cases subscriber with
  | fixAcceptor =>
    obtain ⟨fix, -, rfl⟩ := Option.map_eq_some_iff.mp hnotify
    exact hy
  | aiTrader =>
    cases hnotify
    exact hy

lemma deliver_frame {out : MECoreOutput} (hx : deliver px x out = some x') :
    x'.books = x.books ∧ x'.mdg = x.mdg.deliver out := by
  cases out with
  | execReport event => exact onExecReport_frame hx
  | refusal event => exact onExecReport_frame hx
  | _ =>
    cases hx
    exact ⟨rfl, rfl⟩

end Exchange

namespace Program

variable {px : PriceText} {p p' : Program} {s : ℕ}

/-! ### One request -/

/-- With the lock free, what a core pushes is delivered. -/
lemma foldlM_deliver (hfree : p.exchange.Free) (outs : List MECoreOutput) :
    ∃ x : Exchange, outs.foldlM (deliver px) p
        = some { p with exchange := x, clearing := outs.foldl .deliver p.clearing } ∧
      x.Free ∧ x.books = p.exchange.books ∧ x.mdg = outs.foldl .deliver p.exchange.mdg := by
  induction outs generalizing p with
  | nil => exact ⟨p.exchange, rfl, hfree, rfl, rfl⟩
  | cons out outs ih =>
    obtain ⟨x, hx, hxfree⟩ : ∃ x, p.exchange.deliver px out = some x ∧ x.Free :=
      hfree.deliver out
    obtain ⟨hbooks, hmdg⟩ := Exchange.deliver_frame hx
    have hstep : p.deliver px out
        = some { p with exchange := x, clearing := p.clearing.deliver out } := by
      rw [deliver, hx, Option.map_some]
    obtain ⟨y, hy, hyfree, hybooks, hymdg⟩ :=
      ih (p := { p with exchange := x, clearing := p.clearing.deliver out }) hxfree
    refine ⟨y, ?_, hyfree, hybooks.trans hbooks, ?_⟩
    · rw [List.foldlM_cons, hstep]
      exact hy
    · rw [hymdg, hmdg, List.foldl_cons]

/-- A request for a symbol with a book. -/
lemma submit_some (px : PriceText) (hfree : p.exchange.Free) {event : MECoreEvent}
    {core : MECoreActor} (hcore : p.exchange.books.lookup event.symbolIdx = some core) :
    ∃ x : Exchange, p.submit px event = some { p with
        exchange := x
        clearing := (core.step (OEGActor.forward event)).2.foldl .deliver p.clearing } ∧
      x.Free ∧
      x.books = p.exchange.books.insert event.symbolIdx (core.step (OEGActor.forward event)).1 ∧
      x.mdg = (core.step (OEGActor.forward event)).2.foldl .deliver p.exchange.mdg := by
  simp only [submit, hcore]
  exact foldlM_deliver (p := { p with exchange := { p.exchange with
    books := p.exchange.books.insert event.symbolIdx (core.step (OEGActor.forward event)).1 } })
    ⟨hfree.sessionMutex, hfree.subscribed⟩ _

/-- With the lock held, a request gets stuck if it gets as far as a matching core. -/
lemma submit_held (h : p.exchange.Held) (event : MECoreEvent) : p.submit px event
    = if p.exchange.books.lookup event.symbolIdx = none then some p else none := by
  rw [submit]
  cases hcore : p.exchange.books.lookup event.symbolIdx with
  | none => rfl
  | some core =>
    simp only [reduceCtorEq, if_false]
    obtain ⟨ev, hev⟩ := core.exists_report (OEGActor.forward event)
    refine Machine.foldlM_stuck (P := fun p => p.exchange.Held) ?_ ?_
      ⟨h.sessionMutex, h.subscribed⟩
    · intro p out p' hp hstep
      obtain ⟨x, hx, rfl⟩ := Option.map_eq_some_iff.mp hstep
      exact hp.deliver hx
    · rcases hev with hev | hev
      · exact ⟨_, hev, fun p hp => by rw [deliver, Exchange.deliver,
          Exchange.onExecReport_held hp, Option.map_none]⟩
      · exact ⟨_, hev, fun p hp => by rw [deliver, Exchange.deliver,
          Exchange.onExecReport_held hp, Option.map_none]⟩

/-! ### Each symbol alone -/

/-- The requests for a symbol, as the gateway passes them on. -/
def requests (s : ℕ) (events : List NewOrderEvent) : List MECoreEvent :=
  (events.filter fun event => event.symbolIdx = s).map fun event =>
    OEGActor.forward (.newOrder event)

/-- The matching core of a symbol and market data, sent nothing but the requests for the symbol. -/
def alone (s : ℕ) (events : List NewOrderEvent) : MarketFeed × List MECoreOutput :=
  Machine.run MarketFeed.step (MarketFeed.new s true) (requests s events)

lemma alone_snoc_self {events : List NewOrderEvent} {event : NewOrderEvent}
    (hs : event.symbolIdx = s) : alone s (events ++ [event])
      = (((alone s events).1.step (OEGActor.forward (.newOrder event))).1,
          (alone s events).2 ++
            ((alone s events).1.step (OEGActor.forward (.newOrder event))).2) := by
  have hreq : requests s (events ++ [event])
      = requests s events ++ [OEGActor.forward (.newOrder event)] := by
    simp [requests, List.filter_append, hs]
  rw [alone, hreq, Machine.run_snoc]
  rfl

lemma alone_snoc_of_ne {events : List NewOrderEvent} {event : NewOrderEvent}
    (hs : event.symbolIdx ≠ s) : alone s (events ++ [event]) = alone s events := by
  have hreq : requests s (events ++ [event]) = requests s events := by
    simp [requests, List.filter_append, hs]
  rw [alone, hreq]
  rfl

/-- What holds of a symbol alone in any case. -/
structure Alone (s : ℕ) (f : MarketFeed) (h : List MECoreOutput) : Prop where
  fed : f.Fed h
  symbolIdx : f.core.book.symbolIdx = s
  hasClearingHouse : f.core.hasClearingHouse = true
  trades : ∀ t ∈ marketTrades h, t.symbolIdx = s

lemma alone_ok (s : ℕ) (events : List NewOrderEvent) :
    Alone s (alone s events).1 (alone s events).2 := by
  induction events using List.reverseRecOn with
  | nil => exact ⟨.new s true, rfl, rfl, by simp [alone, requests, marketTrades]⟩
  | append_singleton events event ih =>
    by_cases hs : event.symbolIdx = s
    · rw [alone_snoc_self hs]
      obtain ⟨hbook, htrades⟩ := MECoreActor.symbolIdx_step ih.fed.core
        (OEGActor.forward (.newOrder event))
      refine ⟨ih.fed.step _, hbook.trans ih.symbolIdx, ih.hasClearingHouse, fun t ht => ?_⟩
      rw [marketTrades_append, List.mem_append] at ht
      rcases ht with ht | ht
      · exact ih.trades t ht
      · exact (htrades t ht).trans ih.symbolIdx
    · rwa [alone_snoc_of_ne hs]

/-! ### The actors together -/

/-- The program is made of its symbols: each core is where it would be alone, market data shows of
each symbol what it would show alone, and there is one sequence of trades that the clearing house
has cleared, that market data keeps the end of, and that has for each symbol the trades that the
symbol makes alone. -/
structure Wired (p : Program) (events : List NewOrderEvent) (trades : List Trade) : Prop where
  books : ∀ s, p.exchange.books.lookup s
    = if s ∈ Exchange.allSymbols then some (alone s events).1.core else none
  snapshots : ∀ s ∈ Exchange.allSymbols,
    p.exchange.mdg.snapshot s = (alone s events).1.mdg.snapshot s
  symbols : ∀ t ∈ trades, t.symbolIdx ∈ Exchange.allSymbols
  traded : ∀ s ∈ Exchange.allSymbols,
    (trades.filter fun t => t.symbolIdx = s) = marketTrades (alone s events).2
  recentTrades : p.exchange.mdg.recentTrades = Window.last MDGActor.maxRecentTrades trades
  clearing : p.clearing = (ClearingHouseActor.run .int64 sessionPairs trades).1

lemma main_wired : main.Wired [] [] where
  books s := by
    have hlookup := Gateway.lookup_mapped Exchange.allSymbols true s
    exact hlookup
  snapshots s _ := rfl
  symbols := by simp
  traded s _ := rfl
  recentTrades := rfl
  clearing := rfl

namespace Wired

variable {events : List NewOrderEvent} {trades : List Trade} {event : NewOrderEvent}

/-- A request for one of the symbols goes through, and reaches its own core only. -/
theorem submit (px : PriceText) (h : p.Wired events trades) (hfree : p.exchange.Free)
    (hs : event.symbolIdx ∈ Exchange.allSymbols) : ∃ (x : Exchange) (c : ClearingHouseActor)
      (trades' : List Trade),
    p.submit px (.newOrder event) = some { p with exchange := x, clearing := c } ∧ x.Free ∧
      ({ p with exchange := x, clearing := c } : Program).Wired (events ++ [event])
        (trades ++ trades') := by
  have hcore : p.exchange.books.lookup (MECoreEvent.newOrder event).symbolIdx
      = some (alone event.symbolIdx events).1.core := by
    rw [MECoreEvent.symbolIdx, h.books, if_pos hs]
  obtain ⟨x, hx, hxfree, hbooks, hmdg⟩ := submit_some px hfree hcore
  have hok := alone_ok event.symbolIdx events
  set f := (alone event.symbolIdx events).1 with hf
  set outs := (f.core.step (OEGActor.forward (.newOrder event))).2 with houts
  -- what the core pushes is about its own symbol
  have htrades : ∀ t ∈ marketTrades outs, t.symbolIdx = event.symbolIdx := fun t ht =>
    ((MECoreActor.symbolIdx_step hok.fed.core _).2 t ht).trans hok.symbolIdx
  have hupdates : ∀ u, .bookUpdate u ∈ outs → u.symbolIdx = event.symbolIdx := fun u hu =>
    (MECoreActor.symbolIdx_bookUpdate hok.fed.core _ hu).trans hok.symbolIdx
  refine ⟨x, _, marketTrades outs, hx, hxfree, ?_, ?_, ?_, ?_, ?_, ?_⟩
  · intro s
    show x.books.lookup s = _
    rw [hbooks]
    by_cases hsym : s = event.symbolIdx
    · subst hsym
      rw [MECoreEvent.symbolIdx, Finmap.lookup_insert, if_pos hs, alone_snoc_self rfl]
      rfl
    · rw [MECoreEvent.symbolIdx, Finmap.lookup_insert_of_ne _ hsym, h.books,
        alone_snoc_of_ne (Ne.symm hsym)]
  · intro s hsall
    show x.mdg.snapshot s = _
    rw [hmdg]
    by_cases hsym : s = event.symbolIdx
    · subst hsym
      rw [alone_snoc_self rfl]
      exact MDGActor.snapshot_foldl_congr (h.snapshots _ hs)
    · rw [alone_snoc_of_ne (Ne.symm hsym), MDGActor.snapshot_foldl_of_ne
        (fun t ht heq => hsym (heq.trans (htrades t ht)))
        fun u hu heq => hsym (heq.trans (hupdates u hu))]
      exact h.snapshots s hsall
  · intro t ht
    rcases List.mem_append.mp ht with ht | ht
    · exact h.symbols t ht
    · exact (htrades t ht).symm ▸ hs
  · intro s hsall
    rw [List.filter_append, h.traded s hsall]
    by_cases hsym : event.symbolIdx = s
    · rw [alone_snoc_self hsym, marketTrades_append, List.filter_eq_self.mpr]
      · subst hsym
        rfl
      · exact fun t ht => decide_eq_true ((htrades t ht).trans hsym)
    · rw [alone_snoc_of_ne hsym, List.filter_eq_nil_iff.mpr, List.append_nil]
      exact fun t ht => by simpa using fun heq => hsym ((htrades t ht).symm.trans heq)
  · show x.mdg.recentTrades = _
    rw [hmdg, MDGActor.recentTrades_foldl, h.recentTrades, Window.foldl_push]
  · show outs.foldl .deliver p.clearing = _
    refine (MECoreActor.clearing_newOrder hok.hasClearingHouse _ p.clearing).trans ?_
    rw [h.clearing, ClearingHouseActor.run_eq_foldl, ClearingHouseActor.run_eq_foldl,
      List.foldl_append]
    rfl

end Wired

/-! ### What is sent -/

/-- The order is one that a member of the AI trader sends where it knows of no market: for the day,
within three ticks of the reference price. -/
def IsFallback (event : NewOrderEvent) : Prop :=
  ∃ member ∈ AITraderActor.initMembers, ∃ s ∈ Exchange.allSymbols, ∃ clOrdId draws,
    event = AITraderActor.submitOrder clOrdId member s draws

/-- The orders that the gateway has been sent are the seed orders, as far as the main thread is with
them, and then orders of the AI trader, which has not heard of a market. -/
structure Sent (p : Program) (events : List NewOrderEvent) : Prop where
  symbols : p.trader.symbols = Exchange.allSymbols
  bbos : p.trader.bbos = ∅
  members : ∀ member ∈ p.members, member ∈ AITraderActor.initMembers
  sent : ∃ turns, events ++ p.seeds = seedEvents ++ turns ∧ (∀ event ∈ turns, IsFallback event) ∧
    (p.seeds = [] ∨ turns = [])

/-- What holds of the program in any case. -/
structure Running (p : Program) (events : List NewOrderEvent) : Prop where
  free : p.exchange.Free
  sent : p.Sent events
  wired : ∃ trades, p.Wired events trades

lemma main_running : main.Running [] where
  free := Exchange.main_free
  sent := ⟨rfl, rfl, fun _ h => h, [], by simp [main], by simp, Or.inr rfl⟩
  wired := ⟨[], main_wired⟩

/-- The FIX acceptor and the kept reports are of no account. -/
lemma Running.congr {events : List NewOrderEvent} (h : p.Running events) {x : Exchange}
    (hfree : x.Free) (hbooks : x.books = p.exchange.books) (hmdg : x.mdg = p.exchange.mdg) :
    ({ p with exchange := x } : Program).Running events := by
  obtain ⟨trades, hw⟩ := h.wired
  refine ⟨hfree, ⟨h.sent.symbols, h.sent.bbos, h.sent.members, h.sent.sent⟩, trades, ?_⟩
  exact ⟨fun s => by rw [← hw.books s, ← hbooks], fun s hs => by rw [← hw.snapshots s hs, ← hmdg],
    hw.symbols, hw.traded, by rw [← hw.recentTrades, ← hmdg], hw.clearing⟩

lemma seedEvents_symbolIdx : ∀ event ∈ seedEvents, event.symbolIdx ∈ Exchange.allSymbols := by
  decide

lemma IsFallback.symbolIdx {event : NewOrderEvent} (h : IsFallback event) :
    event.symbolIdx ∈ Exchange.allSymbols := by
  obtain ⟨member, -, s, hs, clOrdId, draws, rfl⟩ := h
  exact hs

/-! ### The steps of the main thread -/

namespace Running

variable {events : List NewOrderEvent}

/-- The main thread goes on: a seed order, or an order of the AI trader, goes through. -/
lemma proceed (px : PriceText) (h : p.Running events) (draws : Draws) :
    ∃ p', (p.proceed px draws).1 = some p' ∧
      p'.Running (events ++ (p.proceed px draws).2) := by
  obtain ⟨trades, hw⟩ := h.wired
  obtain ⟨turns, hsent, hturns, horder⟩ := h.sent.sent
  cases hseeds : p.seeds with
  | cons event rest =>
    have hturnsnil : turns = [] := horder.resolve_left (by simp [hseeds])
    have hmem : event ∈ seedEvents := by
      have hall : event ∈ events ++ p.seeds := by simp [hseeds]
      rwa [hsent, hturnsnil, List.append_nil] at hall
    obtain ⟨x, c, trades', hx, hxfree, hxw⟩ :=
      hw.submit px h.free (seedEvents_symbolIdx event hmem)
    have hstep : p.proceed px draws = (p.seed px event rest, [event]) := by
      rw [Program.proceed, hseeds]
    rw [hstep, seed, hx]
    have hrunning : ({ p with exchange := x, clearing := c, seeds := rest } : Program).Running
        (events ++ [event]) := by
      refine ⟨hxfree, ⟨h.sent.symbols, h.sent.bbos, h.sent.members, turns, ?_, hturns,
        Or.inr hturnsnil⟩, _, ⟨hxw.1, hxw.2, hxw.3, hxw.4, hxw.5, hxw.6⟩⟩
      rw [← hsent, hseeds, List.append_assoc, List.singleton_append]
    refine ⟨_, rfl, ?_⟩
    -- `clearReports` after the last seed order
    by_cases hrest : rest = []
    · simp only [if_pos hrest]
      exact hrunning.congr ⟨hxfree.sessionMutex, hxfree.subscribed⟩ rfl rfl
    · simp only [if_neg hrest]
      exact hrunning
  | nil =>
    cases hmembers : p.members with
    | nil =>
      have hstep : p.proceed px draws = (some p, []) := by
        rw [Program.proceed, hseeds, hmembers]
      rw [hstep, List.append_nil]
      exact ⟨p, rfl, h⟩
    | cons member rest =>
      have hmember : member ∈ AITraderActor.initMembers :=
        h.sent.members member (by simp [hmembers])
      have hstep : p.proceed px draws = p.turn px member rest draws := by
        rw [Program.proceed, hseeds, hmembers]
      -- the AI trader knows of no best prices
      have hturn : p.trader.step (.turn member draws)
          = ({ p.trader with nextClOrdId := p.trader.nextClOrdId + 1 },
              [⟨AITraderActor.submitOrder p.trader.nextClOrdId member (p.trader.symbol draws) draws,
                none⟩]) := by
        simp [AITraderActor.step, h.sent.symbols, Exchange.allSymbols, AITraderActor.trade,
          AITraderActor.market, h.sent.bbos]
      have hsym : p.trader.symbol draws ∈ Exchange.allSymbols := by
        rw [← h.sent.symbols]
        exact AITraderActor.symbol_mem (by simp [h.sent.symbols, Exchange.allSymbols])
      set event := AITraderActor.submitOrder p.trader.nextClOrdId member (p.trader.symbol draws)
        draws with hevent
      have hfallback : IsFallback event := ⟨member, hmember, _, hsym, _, draws, hevent⟩
      have hwired : ({ p with
          trader := { p.trader with nextClOrdId := p.trader.nextClOrdId + 1 }
          members := rest ++ [member] } : Program).Wired events trades :=
        ⟨hw.1, hw.2, hw.3, hw.4, hw.5, hw.6⟩
      have hsym' : event.symbolIdx ∈ Exchange.allSymbols := hsym
      obtain ⟨x, c, trades', hx, hxfree, hxw⟩ := hwired.submit px h.free hsym'
      rw [hstep, turn, hturn]
      simp only [List.map_cons, List.map_nil, List.foldlM_cons, List.foldlM_nil]
      rw [hx]
      refine ⟨_, rfl, hxfree, ⟨h.sent.symbols, h.sent.bbos, ?_, turns ++ [event], ?_, ?_,
        Or.inl hseeds⟩, _, hxw⟩
      · intro m hm
        rcases List.mem_append.mp hm with hm | hm
        · exact h.sent.members m (by simp [hmembers, hm])
        · exact List.mem_singleton.mp hm ▸ hmember
      · have hsent' : events = seedEvents ++ turns := by
          rw [← hsent, hseeds, List.append_nil]
        rw [hseeds, List.append_nil, hsent', List.append_assoc]
      · intro e he
        rcases List.mem_append.mp he with he | he
        · exact hturns e he
        · exact List.mem_singleton.mp he ▸ hfallback

end Running

/-! ### Messages -/

/-- The message makes no request for a symbol that has a book, or no receive loop reads it. -/
def Harmless (px : PriceText) : Option Program → ProgramInput → Prop
  | some p, .message sessionId msg =>
    ∀ sess, p.exchange.fix.sessions.lookup sessionId = some sess → sess.receiving = true →
      ∀ event ∈ request px sess msg, event.symbolIdx ∉ Exchange.allSymbols
  | _, _ => True

/-- What makes no request is for the acceptor alone. -/
lemma handleMessage_of_request_none {x : Exchange} {sess : FIXSession} {msg : TagMap}
    (hnone : request px sess msg = none) :
    ∃ fix, x.handleMessage px sess msg = some { x with fix := fix } := by
  unfold request at hnone
  unfold Exchange.handleMessage
  generalize getTag msg 35 [] = msgType at hnone ⊢
  simp only at hnone ⊢
  by_cases hD : msgType = "D".toList
  · simp [hD] at hnone
  by_cases hF : msgType = "F".toList
  · simp [hF] at hnone
  by_cases hG : msgType = "G".toList
  · simp [hG] at hnone
  rw [if_neg hD, if_neg hF, if_neg hG]
  split
  · exact ⟨_, rfl⟩
  split
  · exact ⟨_, rfl⟩
  split
  · exact ⟨_, rfl⟩
  · exact ⟨x.fix, rfl⟩

/-- With the lock held, a message gets stuck if it makes a request for a symbol that has a book, and
otherwise is for the acceptor alone. -/
lemma handleMessage_held (h : p.exchange.Held) (sess : FIXSession) (msg : TagMap) :
    (p.handleMessage px sess msg = none ∧
        ∃ event ∈ request px sess msg, p.exchange.books.lookup event.symbolIdx ≠ none) ∨
      ∃ fix, p.handleMessage px sess msg
          = some { p with exchange := { p.exchange with fix := fix } } ∧
        ∀ event ∈ request px sess msg, p.exchange.books.lookup event.symbolIdx = none := by
  rw [handleMessage]
  cases hreq : request px sess msg with
  | none =>
    obtain ⟨fix, hfix⟩ := handleMessage_of_request_none (x := p.exchange) hreq
    simp only [hfix, Option.map_some]
    exact Or.inr ⟨fix, rfl, fun event hevent => by cases hevent⟩
  | some event =>
    simp only [submit_held h]
    by_cases hnone : p.exchange.books.lookup event.symbolIdx = none
    · rw [if_pos hnone]
      refine Or.inr ⟨p.exchange.fix, rfl, fun event' hevent' => ?_⟩
      cases hevent'
      exact hnone
    · rw [if_neg hnone]
      exact Or.inl ⟨rfl, event, rfl, hnone⟩

namespace Running

variable {events : List NewOrderEvent}

/-- A message goes through exactly if it is harmless, and then changes nothing but the acceptor. -/
lemma recvMessage (px : PriceText) (h : p.Running events) (sessionId : ℕ) (msg : TagMap) :
    (p.recvMessage px sessionId msg = none ∧ ¬Harmless px (some p) (.message sessionId msg)) ∨
      ∃ p', p.recvMessage px sessionId msg = some p' ∧ p'.Running events ∧
        Harmless px (some p) (.message sessionId msg) := by
  obtain ⟨trades, hw⟩ := h.wired
  have hlock : p.exchange.fix.lock = some { p.exchange.fix with sessionMutex := true } := by
    simp [FIXAcceptorActor.lock, h.free.sessionMutex]
  have hbooks : ∀ s, p.exchange.books.lookup s = none ↔ s ∉ Exchange.allSymbols := by
    intro s
    rw [hw.books s]
    split <;> simp [*]
  rw [Program.recvMessage]
  cases hsess : p.exchange.fix.sessions.lookup sessionId with
  | none =>
    refine Or.inr ⟨p, rfl, h, ?_⟩
    intro sess hlookup
    cases hsess.symm.trans hlookup
  | some sess =>
    by_cases hreceiving : sess.receiving = true
    · simp only [hreceiving, if_true, hlock, Option.bind_some]
      set q : Program := { p with
        exchange := { p.exchange with fix := { p.exchange.fix with sessionMutex := true } } }
      have hheld : q.exchange.Held := ⟨rfl, h.free.subscribed⟩
      rcases handleMessage_held hheld sess msg with ⟨hq, event, hreq, hsome⟩ | ⟨fix, hq, hreq⟩
      · rw [hq]
        refine Or.inl ⟨rfl, fun hharm => hsome ?_⟩
        exact (hbooks _).mpr (hharm sess hsess hreceiving event hreq)
      · rw [hq]
        refine Or.inr ⟨_, rfl, h.congr ⟨rfl, h.free.subscribed⟩ rfl rfl, ?_⟩
        intro sess' hlookup _ event hevent
        cases hsess.symm.trans hlookup
        exact (hbooks _).mp (hreq event hevent)
    · refine Or.inr ⟨p, if_neg hreceiving, h, ?_⟩
      intro sess' hlookup hreceiving'
      cases hsess.symm.trans hlookup
      exact absurd hreceiving' hreceiving

/-- A step goes through exactly if it is harmless. -/
theorem step (px : PriceText) (h : p.Running events) (input : ProgramInput) :
    ((step px (some p) input).1 = none ∧ ¬Harmless px (some p) input) ∨
      ∃ p', (step px (some p) input).1 = some p' ∧
        p'.Running (events ++ (step px (some p) input).2) ∧ Harmless px (some p) input := by
  cases input with
  | accept =>
    simp only [Program.step, FIXAcceptorActor.accept, FIXAcceptorActor.lock, h.free.sessionMutex,
      Bool.false_eq_true, if_false, Option.map_some, List.append_nil]
    exact Or.inr ⟨_, rfl, h.congr ⟨rfl, h.free.subscribed⟩ rfl rfl, trivial⟩
  | message sessionId msg =>
    simp only [Program.step, List.append_nil]
    exact h.recvMessage px sessionId msg
  | close sessionId =>
    simp only [Program.step, FIXAcceptorActor.close, FIXAcceptorActor.lock, h.free.sessionMutex,
      Bool.false_eq_true, if_false, Option.map_some, List.append_nil]
    exact Or.inr ⟨_, rfl, h.congr ⟨rfl, h.free.subscribed⟩ rfl rfl, trivial⟩
  | proceed draws =>
    obtain ⟨p', hp', hrunning⟩ := h.proceed px draws
    exact Or.inr ⟨p', hp', hrunning, trivial⟩

end Running

/-- Whatever FIX clients do, as long as the program goes on it is as it should be. -/
lemma throughout_running (px : PriceText) (inputs : List ProgramInput) :
    Machine.Throughout (Machine.recording (step px))
      (fun s => ∀ p, s.1 = some p → p.Running s.2) (some main, []) inputs := by
  refine Machine.throughout_of_along (C := fun _ _ => True) ?_
    (Machine.along_of_forall (by simp)) ?_
  · rintro ⟨p, events⟩ input - hp p' hp'
    cases p with
    | none => cases hp'
    | some p =>
      rcases (hp p rfl).step px input with ⟨hnone, -⟩ | ⟨q, hq, hrunning, -⟩
      · exact absurd (hp'.symm.trans hnone) (by simp)
      · cases hp'.symm.trans hq
        exact hrunning
  · intro p hp
    cases hp
    exact main_running

/-- In every run, no thread hangs exactly as long as no FIX message makes a request for a symbol
that has a book. As long as none hangs, the gateway has been sent the seed orders and orders of the
AI trader, and nothing else, and each actor is where these take it. -/
theorem run_running_iff (px : PriceText) (inputs : List ProgramInput) :
    Machine.Throughout (Machine.recording (step px))
        (fun s => ∃ p, s.1 = some p ∧ p.Running s.2) (some main, []) inputs ↔
      Machine.Along (step px) (Harmless px) (some main) inputs := by
  rw [← Machine.along_recording (h := [])]
  refine Machine.throughout_iff_along (I := fun _ => True) (fun _ _ _ => trivial) ?_ trivial
    ⟨main, rfl, main_running⟩
  rintro ⟨_, events⟩ input - ⟨p, rfl, h⟩
  rcases h.step px input with ⟨hnone, hharm⟩ | ⟨p', hp', hrunning, hharm⟩
  · refine iff_of_false ?_ hharm
    rintro ⟨p', hp', -⟩
    exact absurd (hp'.symm.trans hnone) (by simp)
  · exact iff_of_true ⟨p', hp', hrunning⟩ hharm

end Program

end EuNEx
