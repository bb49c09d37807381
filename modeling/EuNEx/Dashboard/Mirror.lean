import EuNEx.Dashboard.FIXBridge
import EuNEx.Dashboard.InStep

/-!
# The orders of the bridge in the C++ books

An order of the bridge is told about by its ClOrdID, and by nothing else: the bridge does not keep
the id that the C++ book gives to it. That is enough to know how an order stands, for as long as
ClOrdIDs are numbers and do not repeat; a cancel or an amend has to name the id.
-/

namespace EuNEx.Dashboard

variable {P : Type*}

/-! ### Reading the history -/

namespace LinkEvent

def report? : LinkEvent → Option (ℕ × ExecutionReport)
  | .reported symbolIdx report => some (symbolIdx, report)
  | _ => none

end LinkEvent

/-- The reports, with the symbols of the books that make them. -/
def reports (h : List LinkEvent) : List (ℕ × ExecutionReport) := h.filterMap LinkEvent.report?

/-- The reports that the book of a symbol makes. -/
def reportsOn (symbolIdx : ℕ) (h : List LinkEvent) : List ExecutionReport :=
  ((reports h).filter fun x => x.1 = symbolIdx).map Prod.snd

/-- The dashboard has an order as its book has it: a live order, or one that has left, which is as
the last report has said. -/
structure Mirrored (w : Wire P) (b : EuNEx.Book) (reports : List ExecutionReport)
    (e : EuNEx.Order) (o : Order P) : Prop where
  price : o.price = w.toDouble e.price
  live : ∀ o' ∈ b.live, o'.orderId = e.orderId → o.price = w.toDouble o'.price ∧
    o.status = o'.standing ∧ o.remainingQty = o'.remainingQty
  gone : (∀ o' ∈ b.live, o'.orderId ≠ e.orderId) → ∃ r, lastReport reports e.orderId = some r ∧
    r.status.isFinal = true ∧ o.status = r.status ∧ o.remainingQty = r.remainingQty

/-- With no message on its way, the dashboard has its orders as the books have them, and a cancel or
an amend reaches the order that it was issued for. -/
structure Mirrors (w : Wire P) (l : Link P) (h : List LinkEvent) : Prop where
  orders : l.toAcceptor = [] → l.toBridge = [] → ∀ o ∈ l.app.orders, ∃ s core e,
    .entered o.orderId s e ∈ h ∧ l.gateway.books.lookup s = some core ∧
      Mirrored w core.book (reportsOn s h) e o
  requests : ∀ orderId reached, .requested orderId reached ∈ h →
    ∃ s e, .entered orderId s e ∈ h ∧ reached = some (s, e.orderId)

/-- A new order that goes through: it has a number of its own for a ClOrdID, texts that do not look
like the end of a message, a symbol that is known at both ends, a price that comes back as it was, a
quantity that is not negative, and a row in the database. -/
structure GoesThrough (w : Wire P) (symbols : List ℕ) (l : Link P) (symbolIdx : ℕ)
    (r : Submission P) (source : List Char) : Prop where
  number : ∃ n < 2 ^ 64, CppEngineBridge.clOrdIdOf l.app.nextOrderId r = CString.toString n
  free : l.app.pending (CppEngineBridge.clOrdIdOf l.app.nextOrderId r) = none
  source : Clean source
  name : Clean (w.name symbolIdx)
  known : symbolIdx ∈ symbols
  mapped : l.gateway.books.lookup (symbolFromString (PyString.encode (w.name symbolIdx))) ≠ none
  price : w.toDouble (w.px.parse (w.format r.price)) = r.price
  quantity : 0 ≤ r.quantity
  storable : (r.order symbolIdx l.app.nextOrderId).Storable

/-- A new order goes through; a cancel or an amend finds no open order; and SQLite has an integer
for the next trade. -/
def Harmless (w : Wire P) (symbols : List ℕ) (l : Link P) : LinkInput P → Prop
  | .request (.submit symbolIdx r) source => GoesThrough w symbols l symbolIdx r source
  | .request request _ => l.app.target request = none
  | .acceptor => True
  | .bridge => l.app.trades.length + 1 < 2 ^ 63

section

variable {h k : List LinkEvent} {s : ℕ} {r : ExecutionReport} {reps : List ExecutionReport}

@[simp] lemma reports_append : reports (h ++ k) = reports h ++ reports k := List.filterMap_append ..

@[simp] lemma reportsOn_append : reportsOn s (h ++ k) = reportsOn s h ++ reportsOn s k := by
  simp [reportsOn]

lemma mem_reportsOn : r ∈ reportsOn s h ↔ (s, r) ∈ reports h := by
  simp [reportsOn]

@[simp] lemma reports_entered {id s' : ℕ} {e : EuNEx.Order} :
    reports (.entered id s' e :: h) = reports h := rfl

@[simp] lemma reportsOn_entered {id s' : ℕ} {e : EuNEx.Order} :
    reportsOn s (.entered id s' e :: h) = reportsOn s h := rfl

@[simp] lemma reports_map_reported : reports (reps.map (.reported s)) = reps.map (s, ·) := by
  rw [reports, List.filterMap_map]
  exact congrFun List.filterMap_eq_map reps

lemma reportsOn_map_reported {s' : ℕ} :
    reportsOn s' (reps.map (.reported s)) = if s = s' then reps else [] := by
  rw [reportsOn, reports_map_reported, List.filter_map, List.map_map]
  by_cases hs : s = s' <;> simp [hs, Function.comp_def]

end

/-! ### The books -/

/-- The books are calm, and the reports and the orders that have entered are theirs, with quantities
that SQLite has integers for. -/
structure Served (g : Gateway) (h : List LinkEvent) : Prop where
  books : ∀ s core, g.books.lookup s = some core → ∃ hist, core.book.Calm hist ∧
    execs hist = reportsOn s h ∧ ∀ e, .entry e ∈ hist ↔ ∃ id, .entered id s e ∈ h
  unmapped : ∀ s, g.books.lookup s = none → reportsOn s h = [] ∧ ∀ id e, .entered id s e ∉ h
  entries : ∀ id s e, .entered id s e ∈ h → e.quantity ≤ 2 ^ 63 - 1
  within : ∀ x ∈ reports h, x.2.Within (2 ^ 63 - 1)

section

variable {a : MECoreActor} {log : List BookEvent} {sessionId s : ℕ}

/-- What a core pushes of the log of its book, as far as only the reports matter. -/
lemma filterMap_callback {β : Type*} {f : MECoreOutput → Option β} {ofReport : ExecutionReport → β}
    (hexec : ∀ r, f (.execReport ⟨r, sessionId⟩) = some (ofReport r))
    (hentered : ∀ id sess, f (.entered id sess) = none) (hmarket : ∀ t, f (.marketTrade t) = none)
    (hclearing : ∀ t, f (.clearingTrade t) = none) :
    (log.flatMap (a.callback sessionId)).filterMap f = (execs log).map ofReport := by
  induction log with
  | nil => rfl
  | cons ev log ih =>
    rw [List.flatMap_cons, List.filterMap_append, ih, ← List.singleton_append, execs_append,
      List.map_append]
    congr 1
    cases ev with
    | entry o => exact List.filterMap_cons_none (hentered o.orderId o.sessionId)
    | exec r => exact List.filterMap_cons_some (hexec r)
    | exit o => rfl
    | trade t =>
      rw [MECoreActor.callback, List.filterMap_cons_none (hmarket t)]
      split
      · exact List.filterMap_cons_none (hclearing t)
      · rfl

/-- A calm book triggers no stops. -/
lemma step_newOrder_of_calm {hist : List BookEvent} (hcalm : a.book.Calm hist)
    {event : NewOrderEvent} (hexec : event.ordType.isStop = false) :
    (a.step (.newOrder event)).1.book = (a.book.newOrder event.order).book ∧
      (a.step (.newOrder event)).2.filterMap MECoreOutput.report?
        = (execs (a.book.newOrder event.order).log).map (fun r => ⟨r, event.sessionId⟩) ∧
      Link.reported s (a.step (.newOrder event)).2
        = (execs (a.book.newOrder event.order).log).map (.reported s) := by
  have hafter : (a.book.newOrder event.order).book.Calm _ := hcalm.newOrder hexec
  have hstops := hafter.stops
  have henter : a.enterOrder event.order = (a.book.newOrder event.order).toOutcome := by
    refine if_neg fun hfires => ?_
    simp [Book.stopOrderCount, hstops] at hfires
  have hout := MECoreActor.outputs_newOrder (a := a) event
  rw [henter] at hout
  refine ⟨congrArg Outcome.book henter, ?_, ?_⟩
  · rw [hout, List.filterMap_append]
    exact (List.append_nil _).trans (filterMap_callback (fun _ => rfl) (fun _ _ => rfl)
      (fun _ => rfl) fun _ => rfl)
  · rw [hout, Link.reported, List.filterMap_append]
    exact (List.append_nil _).trans (filterMap_callback (fun _ => rfl) (fun _ _ => rfl)
      (fun _ => rfl) fun _ => rfl)

variable {g : Gateway} {h : List LinkEvent}

lemma Served.mapped (symbols : List ℕ) (hasClearingHouse : Bool) :
    Served (Gateway.mapped symbols hasClearingHouse) [] where
  books s core hcore := by
    rw [Gateway.lookup_mapped] at hcore
    split at hcore
    · cases hcore
      exact ⟨[], .new s, rfl, by simp⟩
    · cases hcore
  unmapped s _ := ⟨rfl, by simp⟩
  entries := by simp
  within := by simp [reports]

/-- A book changes, and its history with it. -/
lemma Served.insert (hg : Served g h) {core core' : MECoreActor} {reps : List ExecutionReport}
    {hist : List BookEvent} {orderId : ℕ} {e : EuNEx.Order} (hcore : g.books.lookup s = some core)
    (hcalm : core'.book.Calm hist) (hexecs : execs hist = reportsOn s h ++ reps)
    (hentries : ∀ e', .entry e' ∈ hist ↔ (∃ id, .entered id s e' ∈ h) ∨ e' = e)
    (hquantity : e.quantity ≤ 2 ^ 63 - 1) (hwithin : ∀ r ∈ reps, r.Within (2 ^ 63 - 1)) :
    Served ⟨g.books.insert s core'⟩ (h ++ .entered orderId s e :: reps.map (.reported s)) := by
  have hreports : ∀ s', reportsOn s' (h ++ .entered orderId s e :: reps.map (.reported s))
      = reportsOn s' h ++ if s = s' then reps else [] := by
    intro s'
    rw [reportsOn_append, reportsOn_entered, reportsOn_map_reported]
  have hentered : ∀ id s' e', .entered id s' e' ∈ h ++ .entered orderId s e ::
      reps.map (.reported s) ↔ .entered id s' e' ∈ h ∨ id = orderId ∧ s' = s ∧ e' = e := by
    simp
  constructor
  case books =>
    intro s' core'' hcore''
    by_cases hs : s' = s
    · subst hs
      obtain rfl : core' = core'' := by simpa using hcore''
      refine ⟨hist, hcalm, by rw [hexecs, hreports, if_pos rfl], fun e' => ?_⟩
      rw [hentries]
      simp only [hentered, exists_or]
      simp
    · rw [Finmap.lookup_insert_of_ne _ hs] at hcore''
      obtain ⟨hist', hcalm', hexecs', hentries'⟩ := hg.books s' core'' hcore''
      refine ⟨hist', hcalm', by rw [hexecs', hreports, if_neg (Ne.symm hs), List.append_nil],
        fun e' => ?_⟩
      rw [hentries']
      simp [hentered, hs]
  case unmapped =>
    intro s' hnone
    have hs : s' ≠ s := by
      rintro rfl
      simp at hnone
    rw [Finmap.lookup_insert_of_ne _ hs] at hnone
    obtain ⟨hquiet, hempty⟩ := hg.unmapped s' hnone
    refine ⟨by rw [hreports, hquiet, if_neg (Ne.symm hs), List.append_nil], fun id e' he' => ?_⟩
    rcases (hentered id s' e').mp he' with he' | ⟨-, hs', -⟩
    · exact hempty id e' he'
    · exact hs hs'
  case entries =>
    intro id s' e' he'
    rcases (hentered id s' e').mp he' with he' | ⟨-, -, rfl⟩
    · exact hg.entries id s' e' he'
    · exact hquantity
  case within =>
    rw [reports_append, reports_entered, reports_map_reported]
    refine List.forall_mem_append.mpr ⟨hg.within, fun x hx => ?_⟩
    obtain ⟨r, hr, rfl⟩ := List.mem_map.mp hx
    exact hwithin r hr

/-- A new order goes into the book of its symbol. -/
lemma Served.newOrder (hg : Served g h) {event : NewOrderEvent} {core : MECoreActor}
    (hcore : g.books.lookup event.symbolIdx = some core) (hexec : event.ordType.isStop = false)
    (hstop : event.stopPrice = 0) (hquantity : event.quantity ≤ 2 ^ 63 - 1) (orderId : ℕ) :
    ∃ reps : List ExecutionReport,
      (g.serve (.newOrder event)).2.filterMap MECoreOutput.report?
        = reps.map (fun r => (⟨r, event.sessionId⟩ : ExecReportEvent)) ∧
      Link.arrival g orderId (.newOrder event)
          ++ Link.reported event.symbolIdx (g.serve (.newOrder event)).2
        = .entered orderId event.symbolIdx (core.book.entered event.order) ::
          reps.map (.reported event.symbolIdx) ∧
      Served (g.serve (.newOrder event)).1
        (h ++ .entered orderId event.symbolIdx (core.book.entered event.order) ::
          reps.map (.reported event.symbolIdx)) := by
  have hforward : OEGActor.forward (.newOrder event) = .newOrder event :=
    (Gateway.forward_eq_iff _).mpr hstop
  obtain ⟨hist, hcalm, hexecs, hentries⟩ := hg.books _ _ hcore
  obtain ⟨hbook, hreports, hreported⟩ := step_newOrder_of_calm (a := core) hcalm hexec
    (s := event.symbolIdx)
  have hserve : g.serve (.newOrder event) = (⟨g.books.insert event.symbolIdx
      (core.step (.newOrder event)).1⟩, (core.step (.newOrder event)).2) := by
    simp only [Gateway.serve, MECoreEvent.symbolIdx, hcore, hforward]
  refine ⟨execs (core.book.newOrder event.order).log, ?_, ?_, ?_⟩
  · rw [hserve]
    exact hreports
  · rw [hserve, hreported, Link.arrival, hcore]
    rfl
  · rw [hserve]
    refine hg.insert hcore (hbook ▸ hcalm.newOrder hexec) (by simp [hexecs]) (fun e => ?_)
      hquantity ?_
    · rw [List.mem_append, hentries, EuNEx.Book.entry_mem_newOrder hcalm.sound.shape.levels]
    · refine hcalm.within_newOrder hexec hquantity fun e he => ?_
      obtain ⟨id, hentered⟩ := (hentries e).mp he
      exact hg.entries id _ e hentered

/-- A report is on an order that has entered, and has the ClOrdID of that order. -/
lemma Served.exists_entered (hg : Served g h) {r : ExecutionReport} (hr : (s, r) ∈ reports h) :
    r.Fits ∧ ∃ id e, .entered id s e ∈ h ∧ e.orderId = r.orderId ∧ e.clOrdId = r.clOrdId := by
  rw [← mem_reportsOn] at hr
  cases hcore : g.books.lookup s with
  | none =>
    rw [(hg.unmapped s hcore).1] at hr
    cases hr
  | some core =>
    obtain ⟨hist, hcalm, hexecs, hentries⟩ := hg.books s core hcore
    rw [← hexecs] at hr
    refine ⟨hcalm.informed.fits r hr, ?_⟩
    obtain ⟨pre, post, hsplit⟩ := List.append_of_mem (mem_execs.mp hr)
    obtain ⟨-, e, he, hid, hcl, -⟩ := hcalm.sound.laws.reports.always pre _ post hsplit
    obtain ⟨id, hentered⟩ := (hentries e).mp (show .entry e ∈ hist by simp [hsplit, he])
    exact ⟨id, e, hentered, hid, hcl⟩

/-- In a book, an id belongs to one order. -/
lemma Served.entered_unique (hg : Served g h) {id id' : ℕ} {e e' : EuNEx.Order}
    (he : .entered id s e ∈ h) (he' : .entered id' s e' ∈ h) (hid : e.orderId = e'.orderId) :
    e = e' := by
  cases hcore : g.books.lookup s with
  | none => exact absurd he ((hg.unmapped s hcore).2 id e)
  | some core =>
    obtain ⟨hist, hcalm, -, hentries⟩ := hg.books s core hcore
    exact entry_unique hcalm.sound.laws.ids.entryIds_nodup ((hentries e).mpr ⟨id, he⟩)
      ((hentries e').mpr ⟨id', he'⟩) hid

end

/-! ### The dashboard -/

/-- What an order of the bridge keeps, whatever is reported. -/
structure Ticket (P : Type*) where
  orderId : ℕ
  clOrdId : List Char
  symbolIdx : ℕ
  price : P
  quantity : ℤ

def Order.ticket (o : Order P) : Ticket P :=
  ⟨o.orderId, o.clOrdId, o.symbolIdx, o.price, o.quantity⟩

/-- SQLite has integers for it. -/
def Ticket.Storable (t : Ticket P) : Prop :=
  FitsColumn t.orderId ∧ FitsColumn t.symbolIdx ∧ FitsColumn t.quantity

def App.tickets (a : App P) : List (Ticket P) := a.orders.map Order.ticket

/-- The orders of the bridge are distinguished by their ClOrdIDs, which are numbers. -/
structure Listed (w : Wire P) (symbols : List ℕ) (a : App P) : Prop where
  connected : a.connected = true
  nodup : (a.orders.map Order.orderId).Nodup
  fresh : ∀ t ∈ a.tickets, t.orderId < a.nextOrderId
  pending : ∀ clOrdId id, a.pending clOrdId = some id ↔
    ∃ t ∈ a.tickets, t.clOrdId = clOrdId ∧ t.orderId = id
  decimal : ∀ t ∈ a.tickets, CString.toString (CString.strtoull t.clOrdId) = t.clOrdId
  known : ∀ t ∈ a.tickets, t.symbolIdx ∈ symbols
  price : ∀ t ∈ a.tickets, w.toDouble (w.px.parse (w.format t.price)) = t.price
  storable : ∀ t ∈ a.tickets, t.Storable

section

variable {w : Wire P} {symbols : List ℕ} {a a' : App P} {symbolIdx : ℕ} {r : Submission P}

lemma Listed.start : Listed w symbols { cpp := true, connected := true : App P } where
  connected := rfl
  nodup := List.nodup_nil
  fresh := by simp [App.tickets]
  pending := by simp [App.tickets]
  decimal := by simp [App.tickets]
  known := by simp [App.tickets]
  price := by simp [App.tickets]
  storable := by simp [App.tickets]

lemma Listed.eq_of_clOrdId (hl : Listed w symbols a) {t t' : Ticket P} (ht : t ∈ a.tickets)
    (ht' : t' ∈ a.tickets) (hcl : t.clOrdId = t'.clOrdId) : t.orderId = t'.orderId := by
  have hfirst := (hl.pending t.clOrdId t.orderId).mpr ⟨t, ht, rfl, rfl⟩
  have hsecond := (hl.pending t.clOrdId t'.orderId).mpr ⟨t', ht', hcl.symm, rfl⟩
  exact Option.some.inj (hfirst.symm.trans hsecond)

/-- A report leaves it at that. -/
lemma Listed.congr (hl : Listed w symbols a) (hconnected : a'.connected = true)
    (htickets : a'.tickets = a.tickets) (hnext : a'.nextOrderId = a.nextOrderId)
    (hpending : a'.pending = a.pending) : Listed w symbols a' := by
  have hids : a'.orders.map Order.orderId = a.orders.map Order.orderId := by
    have hmap := congrArg (List.map Ticket.orderId) htickets
    simpa [App.tickets, Function.comp_def, Order.ticket] using hmap
  constructor
  · exact hconnected
  · rw [hids]
    exact hl.nodup
  · rw [htickets, hnext]
    exact hl.fresh
  · rw [htickets, hpending]
    exact hl.pending
  · rw [htickets]
    exact hl.decimal
  · rw [htickets]
    exact hl.known
  · rw [htickets]
    exact hl.price
  · rw [htickets]
    exact hl.storable

/-- The ticket of a new order. -/
def newTicket (a : App P) (symbolIdx : ℕ) (r : Submission P) : Ticket P :=
  ⟨a.nextOrderId, CppEngineBridge.clOrdIdOf a.nextOrderId r, symbolIdx, r.price, r.quantity⟩

lemma tickets_submitOrder : (CppEngineBridge.submitOrder a symbolIdx r).1.tickets
    = a.tickets ++ [newTicket a symbolIdx r] := List.map_append ..

/-- What holds of the tickets there are, and of the new one. -/
lemma forall_tickets_submitOrder {Q : Ticket P → Prop} (hold : ∀ t ∈ a.tickets, Q t)
    (hnew : Q (newTicket a symbolIdx r)) :
    ∀ t ∈ (CppEngineBridge.submitOrder a symbolIdx r).1.tickets, Q t := by
  rw [tickets_submitOrder]
  exact List.forall_mem_append.mpr ⟨hold, List.forall_mem_singleton.mpr hnew⟩

lemma pending_submitOrder (hconnected : a.connected = true) :
    (CppEngineBridge.submitOrder a symbolIdx r).1.pending = Function.update a.pending
      (CppEngineBridge.clOrdIdOf a.nextOrderId r) (some a.nextOrderId) := if_pos hconnected

/-- A new order has a ClOrdID of its own. -/
lemma Listed.submitOrder {l : Link P} {source : List Char} (hl : Listed w symbols l.app)
    (hgoes : GoesThrough w symbols l symbolIdx r source) :
    Listed w symbols (CppEngineBridge.submitOrder l.app symbolIdx r).1 := by
  have hfree := hgoes.free
  constructor
  case connected => exact hl.connected
  case nodup =>
    exact nodup_orderId_snoc hl.nodup fun o ho =>
      (hl.fresh o.ticket (List.mem_map_of_mem ho)).ne
  case fresh =>
    exact forall_tickets_submitOrder (fun t ht => (hl.fresh t ht).trans (Nat.lt_succ_self _))
      (Nat.lt_succ_self _)
  case pending =>
    intro clOrdId id
    rw [pending_submitOrder hl.connected, tickets_submitOrder, Function.update_apply]
    constructor
    · intro hid
      split at hid
      · rename_i heq
        exact ⟨newTicket l.app symbolIdx r, by simp, heq.symm, Option.some.inj hid⟩
      · obtain ⟨t, ht, htcl, htid⟩ := (hl.pending clOrdId id).mp hid
        exact ⟨t, List.mem_append_left _ ht, htcl, htid⟩
    · rintro ⟨t, ht, rfl, rfl⟩
      rw [List.mem_append, List.mem_singleton] at ht
      rcases ht with ht | rfl
      · have hold := (hl.pending t.clOrdId t.orderId).mpr ⟨t, ht, rfl, rfl⟩
        rw [if_neg]
        · exact hold
        · intro heq
          rw [heq, hfree] at hold
          cases hold
      · exact if_pos rfl
  case decimal =>
    exact forall_tickets_submitOrder hl.decimal (CString.toString_strtoull_eq_iff.mpr hgoes.number)
  case known => exact forall_tickets_submitOrder hl.known hgoes.known
  case price => exact forall_tickets_submitOrder hl.price hgoes.price
  case storable =>
    obtain ⟨hid, hsymbol, hquantity, -⟩ := hgoes.storable
    exact forall_tickets_submitOrder hl.storable ⟨hid, hsymbol, hquantity⟩

lemma connected_recordFill [Zero P] {rep : ExecReport P} {o : Order P}
    (hknown : o.symbolIdx ∈ symbols) (htrade : (rep.trade (a.trades.length + 1) o).Storable) :
    (CppEngineBridge.recordFill a symbols rep o).connected = a.connected := by
  simp only [CppEngineBridge.recordFill, if_neg (not_not.mpr htrade), if_pos hknown]
  split <;> rfl

/-- A report on a symbol that is known, with quantities that SQLite has integers for, leaves the
connection alone. -/
lemma connected_handleExecReport [Zero P] {rep : ExecReport P}
    (hknown : ∀ o ∈ a.orders, o.symbolIdx ∈ symbols)
    (horder : ∀ o ∈ a.orders, (rep.change o).Storable)
    (htrade : ∀ o ∈ a.orders, (rep.trade (a.trades.length + 1) o).Storable) :
    (CppEngineBridge.handleExecReport a symbols rep).connected = a.connected := by
  rw [CppEngineBridge.handleExecReport]
  split
  · rfl
  · simp only
    split
    · rfl
    · rename_i o hfind
      have ho : o ∈ a.orders := List.mem_of_find?_eq_some hfind
      rw [if_neg (not_not.mpr (horder o ho))]
      split
      · exact connected_recordFill (hknown o ho) (htrade o ho)
      · rfl

lemma fitsColumn_zero : FitsColumn 0 := by decide

/-- A report is on the order that it names. -/
lemma Listed.handleExecReport [Zero P] (hl : Listed w symbols a) {rep : ExecReport P} {o : Order P}
    (ho : o ∈ a.orders) (hcl : rep.clOrdId = o.clOrdId) (hleaves : FitsColumn rep.leavesQty)
    (hlast : FitsColumn rep.lastQty) (htrades : a.trades.length + 1 < 2 ^ 63) :
    Listed w symbols (CppEngineBridge.handleExecReport a symbols rep) ∧
      (CppEngineBridge.handleExecReport a symbols rep).tickets = a.tickets ∧
      ∀ o', o' ∈ (CppEngineBridge.handleExecReport a symbols rep).orders ↔
        o' = rep.change o ∨ o' ∈ a.orders ∧ o'.orderId ≠ o.orderId := by
  have hpending : a.pending rep.clOrdId = some o.orderId :=
    (hl.pending rep.clOrdId o.orderId).mpr ⟨o.ticket, List.mem_map_of_mem ho, hcl.symm, rfl⟩
  obtain ⟨horders, -, hnext, hpending'⟩ :=
    CppEngineBridge.handleExecReport_frame symbols hpending
  have hchange : rep.applied o.orderId o = some (rep.change o) := if_pos rfl
  obtain ⟨as, bs, hsplit, hsplit', -⟩ := MatchingEngine.writeBack_split hl.nodup ho hchange
    fun o' _ hne => if_neg hne
  rw [← horders] at hsplit'
  have htickets : (CppEngineBridge.handleExecReport a symbols rep).tickets = a.tickets := by
    rw [App.tickets, App.tickets, hsplit, hsplit', List.map_append, List.map_append, List.map_cons,
      List.map_cons]
    rfl
  have hconnected : (CppEngineBridge.handleExecReport a symbols rep).connected = a.connected := by
    have htradeId : FitsColumn (a.trades.length + 1 : ℕ) := by
      unfold FitsColumn
      omega
    have hcolumn (o' : Order P) (ho' : o' ∈ a.orders) : o'.ticket.Storable :=
      hl.storable _ (List.mem_map_of_mem ho')
    apply connected_handleExecReport
    · exact fun o' ho' => hl.known o'.ticket (List.mem_map_of_mem ho')
    · intro o' ho'
      obtain ⟨hid, hsymbol, hquantity⟩ := hcolumn o' ho'
      exact ⟨hid, hsymbol, hquantity, hleaves⟩
    · intro o' ho'
      obtain ⟨hid, hsymbol, -⟩ := hcolumn o' ho'
      refine ⟨htradeId, hsymbol, hlast, ?_, ?_⟩ <;> simp only [ExecReport.trade]
      · split
        · exact hid
        · exact fitsColumn_zero
      · split
        · exact hid
        · exact fitsColumn_zero
  refine ⟨hl.congr (hconnected.trans hl.connected) htickets hnext hpending', htickets,
    fun o' => ?_⟩
  rw [hsplit', hsplit]
  exact mem_replaced_iff (hsplit ▸ hl.nodup)

end

/-! ### The messages -/

/-- The bytes are one message, from which the acceptor makes the order of a ticket. -/
def Carries (w : Wire P) (sess : FIXSession) (g : Gateway) (t : Ticket P) (data : List Char) :
    Prop :=
  ∃ msg event, FIXAcceptorActor.clientRecvLoop (some []) data = (some [], [msg]) ∧
    (FIXAcceptorActor.recv w.px {} sess msg).2 = some (.newOrder event) ∧
    Arrives w sess event t.clOrdId (PyString.encode (w.name t.symbolIdx)) (w.format t.price)
      (CString.toString t.quantity.toNat) ∧
    ∃ core, g.books.lookup event.symbolIdx = some core

/-- Each order is on its way to its book, or has entered it, once. -/
structure Posted (w : Wire P) (sess : FIXSession) (tickets : List (Ticket P)) (g : Gateway)
    (toAcceptor : List (ℕ × List Char)) (h : List LinkEvent) : Prop where
  waiting : ∀ m ∈ toAcceptor, ∃ t ∈ tickets, t.orderId = m.1 ∧ Carries w sess g t m.2
  nodup : (toAcceptor.map Prod.fst).Nodup
  notYet : ∀ m ∈ toAcceptor, ∀ s e, .entered m.1 s e ∉ h
  entered : ∀ id s e, .entered id s e ∈ h → ∃ t ∈ tickets, t.orderId = id ∧
    e.clOrdId = CString.strtoull t.clOrdId ∧ e.price = w.px.parse (w.format t.price)
  once : ∀ id s e s' e', .entered id s e ∈ h → .entered id s' e' ∈ h → s = s' ∧ e = e'
  sent : ∀ t ∈ tickets, t.orderId ∈ toAcceptor.map Prod.fst ∨ ∃ s e, .entered t.orderId s e ∈ h

section

variable {w : Wire P} {sess : FIXSession} {tickets : List (Ticket P)} {g : Gateway}
  {toAcceptor : List (ℕ × List Char)} {h : List LinkEvent}

lemma Posted.start : Posted w sess [] g [] [] where
  waiting := by simp
  nodup := List.nodup_nil
  notYet := by simp
  entered := by simp
  once := by simp
  sent := by simp

/-- A new order is sent. -/
lemma Posted.send (hp : Posted w sess tickets g toAcceptor h) {t : Ticket P} {data : List Char}
    (hfresh : ∀ t' ∈ tickets, t'.orderId < t.orderId) (hcarries : Carries w sess g t data) :
    Posted w sess (tickets ++ [t]) g (toAcceptor ++ [(t.orderId, data)]) h := by
  have hentered : ∀ s e, .entered t.orderId s e ∉ h := by
    intro s e he
    obtain ⟨t', ht', hid, -⟩ := hp.entered _ s e he
    exact (hfresh t' ht').ne hid
  constructor
  case waiting =>
    intro m hm
    rw [List.mem_append, List.mem_singleton] at hm
    rcases hm with hm | rfl
    · obtain ⟨t', ht', hrest⟩ := hp.waiting m hm
      exact ⟨t', List.mem_append_left _ ht', hrest⟩
    · exact ⟨t, by simp, rfl, hcarries⟩
  case nodup =>
    rw [List.map_append, List.nodup_append]
    refine ⟨hp.nodup, List.nodup_singleton _, fun id hid id' hid' => ?_⟩
    obtain ⟨m, hm, rfl⟩ := List.mem_map.mp hid
    obtain ⟨t', ht', htid, -⟩ := hp.waiting m hm
    rw [List.mem_singleton.mp hid', ← htid]
    exact (hfresh t' ht').ne
  case notYet =>
    intro m hm
    rw [List.mem_append, List.mem_singleton] at hm
    rcases hm with hm | rfl
    · exact hp.notYet m hm
    · exact hentered
  case entered =>
    intro id s e he
    obtain ⟨t', ht', hrest⟩ := hp.entered id s e he
    exact ⟨t', List.mem_append_left _ ht', hrest⟩
  case once => exact hp.once
  case sent =>
    intro t' ht'
    rw [List.mem_append, List.mem_singleton] at ht'
    rcases ht' with ht' | rfl
    · exact (hp.sent t' ht').imp (by simp +contextual) id
    · exact .inl (by simp)

/-- An order enters its book. -/
lemma Posted.enter {orderId s : ℕ} {data : List Char} {rest : List (ℕ × List Char)}
    (hp : Posted w sess tickets g ((orderId, data) :: rest) h) {t : Ticket P} (ht : t ∈ tickets)
    (hid : t.orderId = orderId) {e : EuNEx.Order} (hcl : e.clOrdId = CString.strtoull t.clOrdId)
    (hprice : e.price = w.px.parse (w.format t.price)) (reps : List ExecutionReport)
    (core' : MECoreActor) : Posted w sess tickets ⟨g.books.insert s core'⟩ rest
      (h ++ .entered orderId s e :: reps.map (.reported s)) := by
  have hentered : ∀ id s' e', .entered id s' e' ∈ h ++ .entered orderId s e ::
      reps.map (.reported s) ↔ .entered id s' e' ∈ h ∨ id = orderId ∧ s' = s ∧ e' = e := by
    simp
  have hnone : ∀ s' e', .entered orderId s' e' ∉ h := hp.notYet _ List.mem_cons_self
  have hnodup := hp.nodup
  rw [List.map_cons, List.nodup_cons] at hnodup
  constructor
  case waiting =>
    intro m hm
    obtain ⟨t', ht', htid, msg, event, hmsg, hevent, harrives, core, hcore⟩ :=
      hp.waiting m (List.mem_cons_of_mem _ hm)
    refine ⟨t', ht', htid, msg, event, hmsg, hevent, harrives, ?_⟩
    by_cases hs : event.symbolIdx = s
    · exact ⟨core', by rw [hs]; exact Finmap.lookup_insert _⟩
    · exact ⟨core, by rw [Finmap.lookup_insert_of_ne _ hs]; exact hcore⟩
  case nodup => exact hnodup.2
  case notYet =>
    intro m hm s' e' he'
    rcases (hentered _ s' e').mp he' with he' | ⟨heq, -⟩
    · exact hp.notYet m (List.mem_cons_of_mem _ hm) s' e' he'
    · have hmem : m.1 ∈ rest.map Prod.fst := List.mem_map_of_mem hm
      exact hnodup.1 (heq ▸ hmem)
  case entered =>
    intro id s' e' he'
    rcases (hentered id s' e').mp he' with he' | ⟨rfl, rfl, rfl⟩
    · exact hp.entered id s' e' he'
    · exact ⟨t, ht, hid, hcl, hprice⟩
  case once =>
    intro id s₁ e₁ s₂ e₂ h₁ h₂
    rcases (hentered id s₁ e₁).mp h₁ with hold₁ | ⟨rfl, rfl, rfl⟩
    · rcases (hentered id s₂ e₂).mp h₂ with hold₂ | ⟨rfl, -, -⟩
      · exact hp.once id s₁ e₁ s₂ e₂ hold₁ hold₂
      · exact absurd hold₁ (hnone s₁ e₁)
    · rcases (hentered _ s₂ e₂).mp h₂ with hold₂ | ⟨-, rfl, rfl⟩
      · exact absurd hold₂ (hnone s₂ e₂)
      · exact ⟨rfl, rfl⟩
  case sent =>
    intro t' ht'
    rcases hp.sent t' ht' with hsent | ⟨s', e', he'⟩
    · rw [List.map_cons, List.mem_cons] at hsent
      rcases hsent with heq | hsent
      · exact .inr ⟨s, e, (hentered _ s e).mpr (.inr ⟨heq, rfl, rfl⟩)⟩
      · exact .inl hsent
    · exact .inr ⟨s', e', (hentered _ s' e').mpr (.inl he')⟩

end

/-! ### The connection -/

/-- The last of the reports that carry a ClOrdID. -/
def lastNamed (reps : List ExecutionReport) (clOrdId : List Char) : Option ExecutionReport :=
  (reps.filter fun r => CString.toString r.clOrdId = clOrdId).getLast?

/-- The reports arrive in order, and an order is as the last one that has arrived has said. -/
structure Informs (w : Wire P) (sess : FIXSession) (orders : List (Order P))
    (toBridge : List TagMap) (reps delivered flying : List ExecutionReport) : Prop where
  split : reps = delivered ++ flying
  toBridge : toBridge = flying.map fun r => FIXAcceptorActor.execReportMsg w.px ⟨r, sess.sessionId⟩
  shown : ∀ o ∈ orders, ∀ r, lastNamed delivered o.clOrdId = some r →
    o.status = r.status ∧ o.remainingQty = r.remainingQty

section

variable {reps : List ExecutionReport} {r : ExecutionReport} {clOrdId : List Char}

lemma lastNamed_snoc_of_eq (h : CString.toString r.clOrdId = clOrdId) :
    lastNamed (reps ++ [r]) clOrdId = some r := by
  simp [lastNamed, h]

lemma lastNamed_snoc_of_ne (h : CString.toString r.clOrdId ≠ clOrdId) :
    lastNamed (reps ++ [r]) clOrdId = lastNamed reps clOrdId := by
  simp [lastNamed, h]

end

/-- What holds of both ends and of what is between them. -/
structure Linked (w : Wire P) (symbols : List ℕ) (sess : FIXSession) (l : Link P)
    (h : List LinkEvent) : Prop where
  listed : Listed w symbols l.app
  served : Served l.gateway h
  buffer : l.buffer = some []
  posted : Posted w sess l.app.tickets l.gateway l.toAcceptor h
  informs : ∃ delivered flying, Informs w sess l.app.orders l.toBridge
    ((reports h).map Prod.snd) delivered flying
  quiet : ∀ orderId reached, .requested orderId reached ∉ h

section

variable {w : Wire P} {symbols : List ℕ} {sess : FIXSession} {l : Link P} {h : List LinkEvent}

lemma Linked.start (mapped : List ℕ) (hasClearingHouse : Bool) :
    Linked w symbols sess (Link.start mapped hasClearingHouse : Link P) [] where
  listed := .start
  served := .mapped mapped hasClearingHouse
  buffer := rfl
  posted := .start
  informs := ⟨[], [], rfl, rfl, by simp [Link.start]⟩
  quiet := by simp

/-- A report names the order that it is on. -/
lemma Linked.exists_order (hl : Linked w symbols sess l h) {s : ℕ} {r : ExecutionReport}
    (hr : (s, r) ∈ reports h) : r.Fits ∧ ∃ o ∈ l.app.orders, ∃ e, .entered o.orderId s e ∈ h ∧
      e.orderId = r.orderId ∧ o.clOrdId = CString.toString r.clOrdId := by
  obtain ⟨hfits, id, e, he, hid, hcl⟩ := hl.served.exists_entered hr
  obtain ⟨t, ht, rfl, htcl, -⟩ := hl.posted.entered id s e he
  refine ⟨hfits, ?_⟩
  have hdecimal := hl.listed.decimal t ht
  obtain ⟨o, ho, rfl⟩ := List.mem_map.mp ht
  exact ⟨o, ho, e, he, hid, by rw [← hcl, htcl, hdecimal]; rfl⟩

/-- An order has entered with its ClOrdID and its price. -/
lemma Linked.ticket_entered (hl : Linked w symbols sess l h) {o : Order P} (ho : o ∈ l.app.orders)
    {s : ℕ} {e : EuNEx.Order} (he : .entered o.orderId s e ∈ h) :
    o.clOrdId = CString.toString e.clOrdId ∧ o.price = w.toDouble e.price := by
  obtain ⟨t, ht, hid, hcl, hprice⟩ := hl.posted.entered _ s e he
  have hdecimal := hl.listed.decimal t ht
  have hsurvives := hl.listed.price t ht
  obtain ⟨o', ho', rfl⟩ := List.mem_map.mp ht
  obtain rfl := List.inj_on_of_nodup_map hl.listed.nodup ho' ho hid
  rw [hcl, hprice]
  exact ⟨hdecimal.symm, hsurvives.symm⟩

/-- The reports that name an order are those that its book makes on it. -/
lemma Linked.lastNamed_eq (hl : Linked w symbols sess l h) {o : Order P} (ho : o ∈ l.app.orders)
    {s : ℕ} {e : EuNEx.Order} (he : .entered o.orderId s e ∈ h) :
    lastNamed ((reports h).map Prod.snd) o.clOrdId = lastReport (reportsOn s h) e.orderId := by
  rw [lastNamed, lastReport, reportsOn, List.filter_map, List.filter_map, List.filter_filter]
  congr 2
  refine List.filter_congr fun x hx => ?_
  obtain ⟨s', r⟩ := x
  obtain ⟨-, o', ho', e', he', hid, hcl⟩ := hl.exists_order hx
  have hticket : o.ticket ∈ l.app.tickets := List.mem_map_of_mem ho
  have hticket' : o'.ticket ∈ l.app.tickets := List.mem_map_of_mem ho'
  simp only [Function.comp_apply, ← Bool.decide_and, decide_eq_decide, ← hcl, ← hid]
  constructor
  · intro heq
    have hsame : o'.orderId = o.orderId := hl.listed.eq_of_clOrdId hticket' hticket heq
    obtain ⟨hs, hee⟩ := hl.posted.once o.orderId s' e' s e (hsame ▸ he') he
    exact ⟨by rw [hee], hs⟩
  · rintro ⟨heid, rfl⟩
    obtain rfl := hl.served.entered_unique he' he heid
    exact (hl.ticket_entered ho' he').1.trans (hl.ticket_entered ho he).1.symm

/-! ### Steps -/

/-- A new order that goes through is sent as one message. -/
lemma GoesThrough.carries {symbolIdx : ℕ} {r : Submission P}
    {source : List Char} (hgoes : GoesThrough w symbols l symbolIdx r source) :
    Carries w sess l.gateway (newTicket l.app symbolIdx r)
      (CppEngineBridge.sent w l.seq
        (CppEngineBridge.newOrderSingle w symbolIdx l.app.nextOrderId r source)) := by
  obtain ⟨n, -, hnumber⟩ := hgoes.number
  obtain ⟨msg, event, hmsg, hevent, harrives⟩ :=
    exists_arrives w sess hgoes.source hgoes.name hnumber hgoes.quantity l.seq
  refine ⟨msg, event, hmsg, hevent, harrives, ?_⟩
  rw [harrives.symbolIdx]
  exact Option.ne_none_iff_exists'.mp hgoes.mapped

/-- A new order is listed and sent. -/
lemma Linked.submit [Zero P] (hl : Linked w symbols sess l h) {symbolIdx : ℕ} {r : Submission P}
    {source : List Char} (hgoes : GoesThrough w symbols l symbolIdx r source) :
    Linked w symbols sess (l.step w symbols sess (.request (.submit symbolIdx r) source)).1 h := by
  have hfree := hgoes.free
  have houtgoing : CppEngineBridge.outgoing w l.app l.seq (.submit symbolIdx r) source
      = some (l.app.nextOrderId,
        CppEngineBridge.newOrderSingle w symbolIdx l.app.nextOrderId r source) :=
    if_pos hl.listed.connected
  have htickets : (CppEngineBridge.submitOrder l.app symbolIdx r).1.tickets
      = l.app.tickets ++ [newTicket l.app symbolIdx r] := tickets_submitOrder
  simp only [Link.step, houtgoing]
  constructor
  case listed => exact hl.listed.submitOrder hgoes
  case served => exact hl.served
  case buffer => exact hl.buffer
  case posted =>
    show Posted w sess (CppEngineBridge.submitOrder l.app symbolIdx r).1.tickets _ _ _
    rw [htickets]
    exact hl.posted.send hl.listed.fresh hgoes.carries
  case informs =>
    obtain ⟨delivered, flying, hinforms⟩ := hl.informs
    refine ⟨delivered, flying, hinforms.split, hinforms.toBridge, fun o ho rep hrep => ?_⟩
    rcases List.mem_append.mp ho with ho | ho
    · exact hinforms.shown o ho rep hrep
    · -- nothing has been reported under the new ClOrdID
      obtain rfl := List.mem_singleton.mp ho
      have hmem := List.mem_of_getLast? hrep
      obtain ⟨hmem, hname⟩ := List.mem_filter.mp hmem
      have hreports : rep ∈ (reports h).map Prod.snd := by
        rw [hinforms.split]
        exact List.mem_append_left _ hmem
      obtain ⟨⟨s, rep⟩, hx, rfl⟩ := List.mem_map.mp hreports
      obtain ⟨-, o', ho', e, -, -, hcl⟩ := hl.exists_order hx
      have hpending := (hl.listed.pending o'.clOrdId o'.orderId).mpr
        ⟨o'.ticket, List.mem_map_of_mem ho', rfl, rfl⟩
      rw [hcl, of_decide_eq_true hname] at hpending
      cases hpending.symm.trans hfree
  case quiet => exact hl.quiet

/-- A request for no open order changes nothing and sends nothing. -/
lemma findSome_changeOpen_eq_none {orders : List (Order P)} {orderId : ℕ}
    (hnone : orders.find? (fun o => o.orderId = orderId ∧ o.isOpen = true) = none)
    (change : Order P → Order P) :
    orders.findSome? (MatchingEngine.changeOpen orderId change) = none := by
  rw [List.findSome?_eq_none_iff]
  intro o ho
  have hclosed := List.find?_eq_none.mp hnone o ho
  exact if_neg (by simpa using hclosed)

lemma Linked.request [Zero P] (hl : Linked w symbols sess l h) {request : Request P}
    {source : List Char} (hharmless : Harmless w symbols l (.request request source)) :
    Linked w symbols sess (l.step w symbols sess (.request request source)).1 h := by
  have hsame : ∀ request : Request P, (CppEngineBridge.handle l.app request).1 = l.app →
      CppEngineBridge.outgoing w l.app l.seq request source = none →
      (l.step w symbols sess (.request request source)).1 = l := by
    intro request happ hout
    simp [Link.step, happ, hout]
  cases request with
  | submit symbolIdx r => exact hl.submit hharmless
  | cancel orderId =>
    have hnone : l.app.orders.find? (fun o => o.orderId = orderId ∧ o.isOpen = true) = none :=
      hharmless
    rw [hsame]
    · exact hl
    · rw [CppEngineBridge.handle, CppEngineBridge.cancelOrder, MatchingEngine.cancelled,
        findSome_changeOpen_eq_none hnone]
      rfl
    · simp only [CppEngineBridge.outgoing, hnone, Option.map_none, ite_self]
  | amend orderId newPrice newQuantity =>
    have hnone : l.app.orders.find? (fun o => o.orderId = orderId ∧ o.isOpen = true) = none :=
      hharmless
    rw [hsame]
    · exact hl
    · rw [CppEngineBridge.handle, CppEngineBridge.amendOrder, MatchingEngine.amended,
        findSome_changeOpen_eq_none hnone]
      rfl
    · simp only [CppEngineBridge.outgoing, hnone, Option.map_none, ite_self]

/-- A small new order goes into its book, and the reports on it go to the bridge. -/
lemma Linked.acceptor [Zero P] (hl : Linked w symbols sess l h) :
    Linked w symbols sess (l.step w symbols sess .acceptor).1
      (h ++ (l.step w symbols sess .acceptor).2) := by
  rw [Link.step]
  split
  case h_1 =>
    rw [List.append_nil]
    exact hl
  case h_2 orderId data rest hwaiting =>
    have hposted := hl.posted
    rw [hwaiting] at hposted
    obtain ⟨t, ht, hid, msg, event, hmsg, hevent, harrives, core, hcore⟩ :=
      hposted.waiting _ List.mem_cons_self
    have hquantity : event.quantity ≤ 2 ^ 63 - 1 := by
      have hfits : t.quantity < 2 ^ 63 := (hl.listed.storable t ht).2.2.2
      rw [harrives.quantity, CString.strtoull_toString] <;> omega
    obtain ⟨reps, hreps, hevents, hserved⟩ := hl.served.newOrder hcore harrives.executable
      harrives.stopPrice hquantity orderId
    have hsame : (reps.map fun r => (⟨r, event.sessionId⟩ : ExecReportEvent)).filter
        (fun rpt => rpt.sessionId = sess.sessionId)
        = reps.map fun r => (⟨r, sess.sessionId⟩ : ExecReportEvent) := by
      rw [harrives.sessionId, List.filter_eq_self]
      simp
    simp only [hl.buffer, hmsg, Machine.run, Link.handleMessage, hevent, Link.handleEvent, hreps,
      hsame, List.append_nil]
    rw [show (MECoreEvent.newOrder event).symbolIdx = event.symbolIdx from rfl, hevents]
    constructor
    case listed => exact hl.listed
    case served => exact hserved
    case buffer => rfl
    case posted =>
      have hserve : (l.gateway.serve (.newOrder event)).1.books = l.gateway.books.insert
          event.symbolIdx (core.step (OEGActor.forward (.newOrder event))).1 := by
        simp only [Gateway.serve, MECoreEvent.symbolIdx, hcore]
      have hgateway : (l.gateway.serve (.newOrder event)).1 = ⟨l.gateway.books.insert
          event.symbolIdx (core.step (OEGActor.forward (.newOrder event))).1⟩ := by
        rw [← hserve]
      rw [hgateway]
      exact hposted.enter ht hid harrives.clOrdId harrives.price reps _
    case informs =>
      obtain ⟨delivered, flying, hinforms⟩ := hl.informs
      refine ⟨delivered, flying ++ reps, ?_, ?_, hinforms.shown⟩
      · rw [reports_append, List.map_append, hinforms.split, reports_entered, reports_map_reported,
          List.map_map, List.append_assoc]
        exact congrArg _ (congrArg _ (List.map_id _))
      · show l.toBridge ++ _ = _
        rw [hinforms.toBridge, List.map_append, List.map_map]
        rfl
    case quiet =>
      intro orderId' reached hrequested
      rw [List.mem_append] at hrequested
      rcases hrequested with hrequested | hrequested
      · exact hl.quiet orderId' reached hrequested
      · simp at hrequested

/-- The bridge handles a report. -/
lemma Linked.bridge [Zero P] (hl : Linked w symbols sess l h)
    (htrades : l.app.trades.length + 1 < 2 ^ 63) :
    Linked w symbols sess (l.step w symbols sess .bridge).1 h := by
  rw [Link.step]
  split
  case h_1 => exact hl
  case h_2 fields rest hbridge =>
    obtain ⟨delivered, flying, hinforms⟩ := hl.informs
    have htoBridge := hinforms.toBridge
    rw [hbridge] at htoBridge
    obtain ⟨r, flying, rfl, rfl, rfl⟩ := List.map_eq_cons_iff.mp htoBridge.symm
    have hreports : r ∈ (reports h).map Prod.snd := by
      rw [hinforms.split]
      simp
    obtain ⟨⟨s, r⟩, hx, rfl⟩ := List.mem_map.mp hreports
    obtain ⟨hfits, o, ho, e, -, -, hcl⟩ := hl.exists_order hx
    have hfits : (⟨r, sess.sessionId⟩ : ExecReportEvent).Fits := hfits
    obtain ⟨hremaining, hlast⟩ := hl.served.within _ hx
    obtain ⟨h35, rep, hread, hrepcl, hleaves, hnonneg, hle, hstatus⟩ :=
      exists_readExecReport w hfits
    have hleavesFit : FitsColumn rep.leavesQty := by
      rw [hleaves]
      unfold FitsColumn
      dsimp only at hremaining ⊢
      omega
    have hlastFit : FitsColumn rep.lastQty := by
      unfold FitsColumn
      dsimp only at hlast hle
      omega
    have hhandle : CppEngineBridge.handleFixMsg w symbols l.app
        (FIXAcceptorActor.execReportMsg w.px ⟨r, sess.sessionId⟩)
        = CppEngineBridge.handleExecReport l.app symbols rep := by
      rw [CppEngineBridge.handleFixMsg, if_pos h35, hread]
    obtain ⟨hlisted, htickets, horders⟩ :=
      hl.listed.handleExecReport ho (hrepcl.trans hcl.symm) hleavesFit hlastFit htrades
    rw [if_pos hl.listed.connected, hhandle]
    constructor
    case listed => exact hlisted
    case served => exact hl.served
    case buffer => exact hl.buffer
    case posted =>
      show Posted w sess (CppEngineBridge.handleExecReport l.app symbols rep).tickets _ _ _
      rw [htickets]
      exact hl.posted
    case informs =>
      refine ⟨delivered ++ [r], flying, by simp [hinforms.split], rfl, fun o' ho' r' hr' => ?_⟩
      rcases (horders o').mp ho' with rfl | ⟨ho', hne⟩
      · have hnamed : lastNamed (delivered ++ [r]) (rep.change o).clOrdId = some r :=
          lastNamed_snoc_of_eq hcl.symm
        rw [hnamed] at hr'
        obtain rfl := Option.some.inj hr'
        exact ⟨hstatus _, hleaves⟩
      · rw [lastNamed_snoc_of_ne] at hr'
        · exact hinforms.shown o' ho' r' hr'
        · intro heq
          exact hne (hl.listed.eq_of_clOrdId (List.mem_map_of_mem ho') (List.mem_map_of_mem ho)
            (heq.symm.trans hcl.symm))
    case quiet => exact hl.quiet

/-- With nothing on its way, the dashboard shows what the books have. -/
lemma Linked.mirrors (hl : Linked w symbols sess l h) : Mirrors w l h := by
  constructor
  · intro hacceptor hbridge o ho
    obtain ⟨s, e, he⟩ : ∃ s e, .entered o.orderId s e ∈ h := by
      refine (hl.posted.sent o.ticket (List.mem_map_of_mem ho)).resolve_left ?_
      simp [hacceptor]
    obtain ⟨core, hcore⟩ : ∃ core, l.gateway.books.lookup s = some core := by
      by_contra hnone
      rw [← Option.ne_none_iff_exists', not_not] at hnone
      exact (hl.served.unmapped s hnone).2 _ e he
    obtain ⟨hist, hcalm, hexecs, hentries⟩ := hl.served.books s core hcore
    have hentry := (hentries e).mpr ⟨_, he⟩
    obtain ⟨r, hlast, hlive, hgone⟩ := hcalm.sound.lastReport hcalm.informed hentry
    rw [hexecs] at hlast
    have hprice := (hl.ticket_entered ho he).2
    have hshown : o.status = r.status ∧ o.remainingQty = r.remainingQty := by
      obtain ⟨delivered, flying, hinforms⟩ := hl.informs
      have hflying : flying = [] := List.map_eq_nil_iff.mp (hinforms.toBridge.symm.trans hbridge)
      have hsplit := hinforms.split
      rw [hflying, List.append_nil] at hsplit
      apply hinforms.shown o ho r
      rw [← hsplit, hl.lastNamed_eq ho he]
      exact hlast
    refine ⟨s, core, e, he, hcore, hprice, fun o' ho' hid => ?_, fun hnone => ?_⟩
    · obtain ⟨hstatus, hremaining⟩ := hlive o' ho' hid
      rw [hcalm.sound.price_live hentry ho' hid]
      exact ⟨hprice, hshown.1.trans hstatus, hshown.2.trans (congrArg _ hremaining)⟩
    · exact ⟨r, hlast, hgone hnone, hshown⟩
  · intro orderId reached hrequested
    exact absurd hrequested (hl.quiet orderId reached)

/-- One step. -/
lemma Linked.step [Zero P] (hl : Linked w symbols sess l h) {input : LinkInput P}
    (hharmless : Harmless w symbols l input) : Linked w symbols sess
      (l.step w symbols sess input).1 (h ++ (l.step w symbols sess input).2) := by
  cases input with
  | request request source =>
    have hnone : (l.step w symbols sess (.request request source)).2 = [] := by
      simp only [Link.step]
      split <;> rfl
    rw [hnone, List.append_nil]
    exact hl.request hharmless
  | acceptor => exact hl.acceptor
  | bridge =>
    have hnone : (l.step w symbols sess .bridge).2 = [] := by
      rw [Link.step]
      split
      · rfl
      · split <;> rfl
    rw [hnone, List.append_nil]
    exact hl.bridge hharmless

end

/-! ### Runs -/

/-- As long as no open order is cancelled or amended, and the new orders have ClOrdIDs, symbols and
prices that survive the wire, the dashboard mirrors the books. -/
theorem mirrors_of_harmless [Zero P] (w : Wire P) (symbols : List ℕ) (sess : FIXSession)
    (mapped : List ℕ) (hasClearingHouse : Bool) (inputs : List (LinkInput P))
    (hharmless : Machine.Along (Link.step w symbols sess) (Harmless w symbols)
      (Link.start mapped hasClearingHouse) inputs) :
    Machine.Throughout (Machine.recording (Link.step w symbols sess))
      (fun s => Mirrors w s.1 s.2) (Link.start mapped hasClearingHouse, []) inputs := by
  have hlinked : Machine.Throughout (Machine.recording (Link.step w symbols sess))
      (fun s => Linked w symbols sess s.1 s.2) (Link.start mapped hasClearingHouse, []) inputs :=
    Machine.throughout_of_along (C := fun s input => Harmless w symbols s.1 input)
      (fun s input hharmless hl => hl.step hharmless)
      (Machine.along_recording.mpr hharmless) (Linked.start mapped hasClearingHouse)
  exact hlinked.mono fun s hl => hl.mirrors

/-- The dashboard has so many trades at most. -/
def Link.Few (n : ℕ) (l : Link P) : Prop := l.app.trades.length ≤ n

section

variable {w : Wire P} {symbols : List ℕ} {sess : FIXSession} {l : Link P} {n : ℕ}

lemma app_run_handleMessage (orderId : ℕ) (msgs : List TagMap) :
    (Machine.run (Link.handleMessage w sess orderId) l msgs).1.app = l.app := by
  induction msgs generalizing l with
  | nil => rfl
  | cons msg msgs ih =>
    rw [Machine.run_cons, ih, Link.handleMessage]
    split <;> rfl

lemma trades_handle (a : App P) (request : Request P) :
    (CppEngineBridge.handle a request).1.trades = a.trades := by
  cases request with
  | submit symbolIdx r => rfl
  | cancel orderId =>
    rw [CppEngineBridge.handle, CppEngineBridge.cancelOrder]
    cases a.orders.findSome? (MatchingEngine.cancelled orderId) <;> rfl
  | amend orderId newPrice newQuantity =>
    rw [CppEngineBridge.handle, CppEngineBridge.amendOrder]
    cases a.orders.findSome? (MatchingEngine.amended orderId newPrice newQuantity) <;> rfl

lemma length_trades_handleExecReport [Zero P] (a : App P) (rep : ExecReport P) :
    (CppEngineBridge.handleExecReport a symbols rep).trades.length ≤ a.trades.length + 1 := by
  have hone (trade : Trade P) : (a.trades ++ [trade]).length ≤ a.trades.length + 1 :=
    (List.length_append ..).le
  rw [CppEngineBridge.handleExecReport]
  split
  · exact Nat.le_succ _
  · simp only
    split
    · exact Nat.le_succ _
    · split
      · exact Nat.le_succ _
      · split
        · rw [CppEngineBridge.recordFill]
          simp only
          split
          · exact hone _
          · split
            · exact hone _
            · split <;> exact hone _
        · exact Nat.le_succ _

/-- A step records one trade at most. -/
lemma Link.Few.step [Zero P] (h : l.Few n) {input : LinkInput P} :
    (l.step w symbols sess input).1.Few (n + 1) := by
  cases input with
  | request request source =>
    rw [Link.step]
    have htrades := congrArg List.length (trades_handle l.app request)
    split <;> exact htrades.le.trans (h.trans n.le_succ)
  | acceptor =>
    rw [Link.step]
    split
    · exact h.trans n.le_succ
    · rw [Link.Few, app_run_handleMessage]
      exact h.trans n.le_succ
  | bridge =>
    rw [Link.step]
    split
    · exact h.trans n.le_succ
    · split
      · rw [Link.Few, CppEngineBridge.handleFixMsg]
        split
        · split
          · exact (length_trades_handleExecReport _ _).trans (Nat.succ_le_succ h)
          · exact h.trans n.le_succ
        · exact h.trans n.le_succ
      · exact h.trans n.le_succ

lemma Link.Few.harmless (h : l.Few n) (hn : n + 1 < 2 ^ 63) : Harmless w symbols l .bridge :=
  (Nat.succ_le_succ h).trans_lt hn

end

lemma plain_wholePrice (p : ℤ) : Plain (PyString.str p ++ ".00".toList) := by
  have hcents : Plain ".00".toList := by decide
  refine List.forall_mem_append.mpr ⟨fun c hc => ?_, hcents⟩
  rcases PyString.mem_str hc with rfl | hdigit
  · decide
  · have hnat := CString.toNat_of_isDigit hdigit
    refine ⟨by omega, ?_, ?_⟩ <;> rintro rfl <;> exact absurd hdigit (by decide)

/-- A wire for whole prices, at a moment. -/
def wholePrices : Wire ℤ where
  name _ := "AAPL".toList
  format p := PyString.str p ++ ".00".toList
  float text := CString.strtol text
  px :=
    { parse := fun text => CString.strtol text * 10 ^ 8
      print := fun p => PyString.str (p / 10 ^ 8) ++ ".000000".toList }
  toDouble p := p / 10 ^ 8
  sendingTime _ := "20260105-09:00:00".toList
  millis _ := 1767603600000
  plain_format := plain_wholePrice
  plain_sendingTime _ := by decide

/-- A buy of five, and a sell of two that crosses it on the way. -/
def crossingRun : List (LinkInput ℤ) :=
  [.request (.submit 1
      { side := .buy, orderType := .limit, price := 10, quantity := 5, tif := .day })
      "dashboard".toList,
    .request (.submit 1
      { side := .sell, orderType := .limit, price := 9, quantity := 2, tif := .day })
      "dashboard".toList,
    .acceptor, .bridge, .acceptor, .bridge, .bridge]

theorem mirrors_crossingRun : Machine.Throughout
    (Machine.recording (Link.step wholePrices [1] { sessionId := 100 }))
    (fun s => Mirrors wholePrices s.1 s.2) (Link.start [1] false, []) crossingRun := by
  apply mirrors_of_harmless
  have hstart : (Link.start [1] false : Link ℤ).Few 0 := le_rfl
  refine ⟨?_, ?_, trivial, hstart.step.step.step.harmless (by decide), trivial,
    hstart.step.step.step.step.step.harmless (by decide),
    hstart.step.step.step.step.step.step.harmless (by decide), trivial⟩
  · constructor
    case number => exact ⟨1000, by decide, if_pos rfl⟩
    case free => rfl
    case known => simp
    all_goals decide +kernel
  · constructor
    case number => exact ⟨1001, by decide, if_pos rfl⟩
    case free => decide +kernel
    case known => simp
    all_goals decide +kernel

/-! ### Cancels and amends -/

/-- A new order has texts that do not look like the end of a message. -/
def Spoken (w : Wire P) (l : Link P) : LinkInput P → Prop
  | .request (.submit symbolIdx r) source => Clean source ∧
    Clean (CppEngineBridge.clOrdIdOf l.app.nextOrderId r) ∧ Clean (w.name symbolIdx)
  | _ => True

/-- No message names the id of an order, and no cancel or amend has found one. -/
structure Aimless (w : Wire P) (l : Link P) (h : List LinkEvent) : Prop where
  sound : ∀ s core, l.gateway.books.lookup s = some core → ∃ outs, core.Sound outs
  clean : ∀ o ∈ l.app.orders, Clean o.clOrdId ∧ Clean (w.name o.symbolIdx)
  buffer : l.buffer = some []
  unnamed : ∀ m ∈ l.toAcceptor, ∃ msg,
    FIXAcceptorActor.clientRecvLoop (some []) m.2 = (some [], [msg]) ∧ msg.lookup 37 = none
  missed : ∀ orderId reached, .requested orderId reached ∈ h → reached = none

section

variable {w : Wire P} {symbols : List ℕ} {sess : FIXSession} {l : Link P} {h : List LinkEvent}

/-- An order keeps its texts. -/
lemma clean_replaceF {orders : List (Order P)} {change : Order P → Option (Order P)}
    (hclean : ∀ o ∈ orders, Clean o.clOrdId ∧ Clean (w.name o.symbolIdx))
    (hchange : ∀ o o', change o = some o' → (o'.clOrdId, o'.symbolIdx) = (o.clOrdId, o.symbolIdx)) :
    ∀ o ∈ orders.replaceF change, Clean o.clOrdId ∧ Clean (w.name o.symbolIdx) := by
  intro o ho
  have hmem := List.mem_map_of_mem (f := fun o : Order P => (o.clOrdId, o.symbolIdx)) ho
  rw [map_replaceF hchange] at hmem
  obtain ⟨o', ho', heq⟩ := List.mem_map.mp hmem
  obtain ⟨hcl, hsymbol⟩ := Prod.mk.inj heq
  rw [← hcl, ← hsymbol]
  exact hclean o' ho'

lemma texts_changeOpen {orderId : ℕ} {f : Order P → Order P}
    (hf : ∀ o, ((f o).clOrdId, (f o).symbolIdx) = (o.clOrdId, o.symbolIdx)) (o o' : Order P)
    (hchange : MatchingEngine.changeOpen orderId f o = some o') :
    (o'.clOrdId, o'.symbolIdx) = (o.clOrdId, o.symbolIdx) := by
  rw [MatchingEngine.changeOpen] at hchange
  split at hchange
  · cases hchange
    exact hf o
  · cases hchange

/-- The orders after a request have clean texts. -/
lemma Aimless.clean_handle (ha : Aimless w l h) {request : Request P} {source : List Char}
    (hspoken : Spoken w l (.request request source)) :
    ∀ o ∈ (CppEngineBridge.handle l.app request).1.orders,
      Clean o.clOrdId ∧ Clean (w.name o.symbolIdx) := by
  cases request with
  | submit symbolIdx r =>
    exact List.forall_mem_append.mpr ⟨ha.clean, List.forall_mem_singleton.mpr hspoken.2⟩
  | cancel orderId =>
    rw [CppEngineBridge.handle, CppEngineBridge.cancelOrder]
    cases l.app.orders.findSome? (MatchingEngine.cancelled orderId) with
    | none => exact ha.clean
    | some o => exact clean_replaceF ha.clean (texts_changeOpen fun _ => rfl)
  | amend orderId newPrice newQuantity =>
    rw [CppEngineBridge.handle, CppEngineBridge.amendOrder]
    cases l.app.orders.findSome? (MatchingEngine.amended orderId newPrice newQuantity) with
    | none => exact ha.clean
    | some o => exact clean_replaceF ha.clean (texts_changeOpen fun _ => rfl)

/-- The orders after a message have clean texts. -/
lemma clean_handleFixMsg [Zero P] {a : App P} {fields : TagMap}
    (hclean : ∀ o ∈ a.orders, Clean o.clOrdId ∧ Clean (w.name o.symbolIdx)) :
    ∀ o ∈ (CppEngineBridge.handleFixMsg w symbols a fields).orders,
      Clean o.clOrdId ∧ Clean (w.name o.symbolIdx) := by
  rw [CppEngineBridge.handleFixMsg]
  split
  · split
    · rename_i rep hread
      cases hpending : a.pending rep.clOrdId with
      | none =>
        rw [CppEngineBridge.handleExecReport_of_none symbols hpending]
        exact hclean
      | some orderId =>
        rw [(CppEngineBridge.handleExecReport_frame symbols hpending).1]
        refine clean_replaceF hclean fun o o' hchange => ?_
        rw [ExecReport.applied] at hchange
        split at hchange
        · cases hchange
          rfl
        · cases hchange
    · exact hclean
  · exact hclean

/-- What is sent is one message. -/
lemma Aimless.requested_outgoing (ha : Aimless w l h) {request : Request P} {source : List Char}
    (hspoken : Spoken w l (.request request source)) {orderId : ℕ}
    {fields : List (ℕ × List Char)}
    (hout : CppEngineBridge.outgoing w l.app l.seq request source = some (orderId, fields)) :
    Requested fields := by
  have hclean : ∀ {orderId : ℕ} {o : Order P},
      l.app.orders.find? (fun o => o.orderId = orderId ∧ o.isOpen = true) = some o →
      Clean o.clOrdId ∧ Clean (w.name o.symbolIdx) :=
    fun hfind => ha.clean _ (List.mem_of_find?_eq_some hfind)
  unfold CppEngineBridge.outgoing at hout
  split at hout
  · cases request with
    | submit symbolIdx r =>
      obtain ⟨-, rfl⟩ := Prod.mk.inj (Option.some.inj hout)
      obtain ⟨hsource, hcl, hname⟩ := hspoken
      exact CppEngineBridge.requested_newOrderSingle w hsource hcl hname
    | cancel id =>
      obtain ⟨o, hfind, heq⟩ := Option.map_eq_some_iff.mp hout
      obtain ⟨-, rfl⟩ := Prod.mk.inj heq
      obtain ⟨hcl, hname⟩ := hclean hfind
      exact CppEngineBridge.requested_cancelRequest w hcl hname
    | amend id newPrice newQuantity =>
      obtain ⟨o, hfind, heq⟩ := Option.map_eq_some_iff.mp hout
      obtain ⟨-, rfl⟩ := Prod.mk.inj heq
      obtain ⟨hcl, hname⟩ := hclean hfind
      exact CppEngineBridge.requested_cancelReplaceRequest w hcl hname
  · cases hout

/-- No order has the id zero. -/
lemma cancelOrder_zero {core : MECoreActor} {outs : List MECoreOutput} (hs : core.Sound outs) :
    core.book.cancelOrder 0 = none := by
  obtain ⟨hist, hb, -, -⟩ := hs
  by_contra hsome
  obtain ⟨c, hc⟩ := Option.ne_none_iff_exists'.mp hsome
  have hrem := EuNEx.Book.removes_of_cancelOrder hb.shape hc
  have hid := hb.laws.ids.live_mem_entryIds hrem.mem_live
  rw [hrem.orderId, hb.laws.ids.entryIds, List.mem_range'_1] at hid
  exact absurd hid.1 (by decide)

/-- What the acceptor makes of a message that does not name the id of an order finds none. -/
lemma requested_of_unnamed (hsound : ∀ s core, l.gateway.books.lookup s = some core →
      ∃ outs, core.Sound outs) {msg : TagMap} (hnone : msg.lookup 37 = none) {event : MECoreEvent}
    (hevent : (FIXAcceptorActor.recv w.px {} sess msg).2 = some event) {orderId orderId' : ℕ}
    {reached : Option (ℕ × ℕ)}
    (hrequested : .requested orderId' reached ∈ Link.arrival l.gateway orderId event) :
    reached = none := by
  have hzero : CString.strtoull (getTag msg 37 "0".toList) = 0 := by
    rw [getTag, hnone]
    rfl
  have hmiss : ∀ s, l.gateway.reached s 0 = none := by
    intro s
    rw [Gateway.reached]
    cases hcore : l.gateway.books.lookup s with
    | none => rfl
    | some core =>
      obtain ⟨outs, hs⟩ := hsound s core hcore
      rw [Option.bind_some, cancelOrder_zero hs]
      rfl
  have hcases : (∃ e, event = .newOrder e) ∨ event = .cancelOrder (handleCancelRequest sess msg) ∨
      event = .modifyOrder (handleCancelReplaceRequest w.px sess msg) := by
    simp only [FIXAcceptorActor.recv] at hevent
    split_ifs at hevent <;> cases hevent
    · exact .inl ⟨_, rfl⟩
    · exact .inr (.inl rfl)
    · exact .inr (.inr rfl)
  rcases hcases with ⟨e, rfl⟩ | rfl | rfl
  · simp [Link.arrival] at hrequested
  · rw [Link.arrival, List.mem_singleton] at hrequested
    cases hrequested
    rw [handleCancelRequest, hzero, hmiss]
  · rw [Link.arrival, List.mem_cons] at hrequested
    rcases hrequested with hrequested | hrequested
    · cases hrequested
      rw [handleCancelReplaceRequest, hzero, hmiss]
    · simp at hrequested

/-- A core that handles an event stays sound. -/
lemma Aimless.serve (ha : Aimless w l h) (event : MECoreEvent) :
    ∀ s core, (l.gateway.serve event).1.books.lookup s = some core → ∃ outs, core.Sound outs := by
  intro s core' hcore'
  rw [Gateway.serve] at hcore'
  split at hcore'
  · exact ha.sound s core' hcore'
  · rename_i core hcore
    by_cases hs : s = event.symbolIdx
    · rw [hs, Finmap.lookup_insert] at hcore'
      cases hcore'
      obtain ⟨outs, hsound⟩ := ha.sound _ core hcore
      exact ⟨_, hsound.step (OEGActor.forward event)⟩
    · rw [Finmap.lookup_insert_of_ne _ hs] at hcore'
      exact ha.sound s core' hcore'

lemma Aimless.request [Zero P] (ha : Aimless w l h) {request : Request P} {source : List Char}
    (hspoken : Spoken w l (.request request source)) : Aimless w
    (l.step w symbols sess (.request request source)).1
    (h ++ (l.step w symbols sess (.request request source)).2) := by
  have hclean := ha.clean_handle hspoken
  rw [Link.step]
  split
  case h_1 =>
    rw [List.append_nil]
    exact ⟨ha.sound, hclean, ha.buffer, ha.unnamed, ha.missed⟩
  case h_2 orderId fields hout =>
    rw [List.append_nil]
    obtain ⟨msg, hmsg, -, hnone⟩ :=
      CppEngineBridge.received_sent w (ha.requested_outgoing hspoken hout) l.seq
    refine ⟨ha.sound, hclean, ha.buffer, ?_, ha.missed⟩
    exact List.forall_mem_append.mpr
      ⟨ha.unnamed, List.forall_mem_singleton.mpr ⟨msg, hmsg, hnone⟩⟩

lemma Aimless.acceptor [Zero P] (ha : Aimless w l h) : Aimless w
    (l.step w symbols sess .acceptor).1 (h ++ (l.step w symbols sess .acceptor).2) := by
  rw [Link.step]
  split
  case h_1 =>
    rw [List.append_nil]
    exact ha
  case h_2 orderId data rest hwaiting =>
    have hall := ha.unnamed
    rw [hwaiting, List.forall_mem_cons] at hall
    obtain ⟨⟨msg, hmsg, hnone⟩, hrest⟩ := hall
    simp only [ha.buffer, hmsg, Machine.run, Link.handleMessage, List.append_nil]
    split
    case h_1 =>
      rw [List.append_nil]
      exact ⟨ha.sound, ha.clean, rfl, hrest, ha.missed⟩
    case h_2 event hevent =>
      refine ⟨ha.serve event, ha.clean, rfl, hrest, fun orderId' reached hrequested => ?_⟩
      rw [List.mem_append] at hrequested
      rcases hrequested with hrequested | hrequested
      · exact ha.missed orderId' reached hrequested
      · rcases List.mem_append.mp hrequested with hrequested | hrequested
        · exact requested_of_unnamed ha.sound hnone hevent hrequested
        · obtain ⟨out, -, hout⟩ := List.mem_filterMap.mp hrequested
          cases out <;> cases hout

lemma Aimless.bridge [Zero P] (ha : Aimless w l h) : Aimless w
    (l.step w symbols sess .bridge).1 (h ++ (l.step w symbols sess .bridge).2) := by
  rw [Link.step]
  split
  · rw [List.append_nil]
    exact ha
  · split <;> rw [List.append_nil]
    · exact ⟨ha.sound, clean_handleFixMsg ha.clean, ha.buffer, ha.unnamed, ha.missed⟩
    · exact ha

lemma Aimless.step [Zero P] (ha : Aimless w l h) {input : LinkInput P}
    (hspoken : Spoken w l input) : Aimless w
      (l.step w symbols sess input).1 (h ++ (l.step w symbols sess input).2) := by
  cases input with
  | request request source => exact ha.request hspoken
  | acceptor => exact ha.acceptor
  | bridge => exact ha.bridge

end

/-- As long as the texts of new orders are clean, no cancel or amend of the bridge finds an order in
a book. -/
theorem reached_eq_none [Zero P] (w : Wire P) (symbols : List ℕ) (sess : FIXSession)
    (mapped : List ℕ) (hasClearingHouse : Bool) (inputs : List (LinkInput P))
    (hspoken : Machine.Along (Link.step w symbols sess) (Spoken w)
      (Link.start mapped hasClearingHouse) inputs) :
    ∀ orderId reached, .requested orderId reached ∈ (Machine.run (Link.step w symbols sess)
      (Link.start mapped hasClearingHouse) inputs).2 → reached = none := by
  have hstart : Aimless w (Link.start mapped hasClearingHouse : Link P) [] := by
    refine ⟨fun s core hcore => ?_, by simp [Link.start], rfl, by simp [Link.start], by simp⟩
    rw [Link.start, Gateway.lookup_mapped] at hcore
    split at hcore
    · cases hcore
      exact ⟨[], .new s hasClearingHouse⟩
    · cases hcore
  have hrun : Aimless w (Machine.run (Link.step w symbols sess)
      (Link.start mapped hasClearingHouse) inputs).1 _ :=
    Machine.run_induction (C := Spoken w) (Q := Aimless w)
      (fun l h input hspoken ha => ha.step hspoken) hspoken hstart
  exact hrun.missed

/-- An order is cancelled. -/
def cancelRun : List (LinkInput ℤ) :=
  [.request (.submit 1
      { side := .buy, orderType := .limit, price := 10, quantity := 5, tif := .day })
      "dashboard".toList,
    .acceptor, .bridge, .request (.cancel 1000) [], .acceptor, .bridge]

theorem not_mirrors_cancelRun : ¬Machine.Throughout
    (Machine.recording (Link.step wholePrices [1] { sessionId := 100 }))
    (fun s => Mirrors wholePrices s.1 s.2) (Link.start [1] false, []) cancelRun := by
  intro hmirrors
  have hlast := hmirrors.2.2.2.2.2.2.requests 1000 none (by decide +kernel)
  obtain ⟨s, e, -, hnone⟩ := hlast
  cases hnone

end EuNEx.Dashboard
