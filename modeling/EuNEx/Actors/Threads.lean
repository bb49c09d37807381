import EuNEx.Actors.MarketData
import EuNEx.Actors.OEG
import EuNEx.Actors.Positions
import EuNEx.Lib.Pipeline

/-!
# Threads

The gateway, the matching cores, market data and the clearing house on the cores of an `Engine`,
where `Pipe::push` queues an event for another core and delivers it at once on the same core.
The gateway is the source of a pipeline whose workers are the matching cores, and what the cores
push goes to three actors that push nothing on. Each of them keeps what it hears of different
symbols apart, or adds it up.
-/

namespace EuNEx

open Tally (balance)

/-! ### The clearing house -/

namespace MemberState

variable {arith : Arithmetic} {sessions : Finmap fun _ : ℕ => ℕ} {m m' : MemberState} {t : Trade}
  {trades trades' hist : List Trade}

/-- A member after a sequence of trades. -/
def settle (arith : Arithmetic) (sessions : Finmap fun _ : ℕ => ℕ) (trades : List Trade)
    (m : MemberState) : MemberState :=
  trades.foldl (fun m t => m.handle arith sessions t) m

@[simp] lemma settle_nil : settle arith sessions [] m = m := rfl

@[simp] lemma settle_cons : settle arith sessions (t :: trades) m
    = settle arith sessions trades (m.handle arith sessions t) := rfl

lemma name_processTradeSide {symbolIdx : ℕ} {price : ℤ} {qty : ℕ} {isBuy : Bool} :
    (m.processTradeSide arith symbolIdx price qty isBuy).name = m.name := by
  cases hlookup : m.holdings.lookup symbolIdx with
  | none => simp [processTradeSide, hlookup]
  | some h =>
    cases isBuy with
    | true => simp [processTradeSide, hlookup]
    | false =>
      by_cases hz : arith.reduce (h.quantity - qty) = 0 <;> simp [processTradeSide, hlookup, hz]

lemma name_settle : (settle arith sessions trades m).name = m.name := by
  have hside : ∀ who t isBuy (m : MemberState), (m.takeSide arith who t isBuy).name = m.name := by
    intro who t isBuy m
    rw [takeSide]
    split
    · exact name_processTradeSide
    · rfl
  induction trades generalizing m with
  | nil => rfl
  | cons t trades ih => rw [settle_cons, ih, handle, hside, hside]

lemma memberId_settle : (settle arith sessions trades m).memberId = m.memberId := by
  induction trades generalizing m with
  | nil => rfl
  | cons t trades ih => rw [settle_cons, ih, memberId_handle]

lemma Accounted.settle (h : m.Accounted arith sessions hist) (trades : List Trade) :
    (settle arith sessions trades m).Accounted arith sessions (hist ++ trades) := by
  induction trades generalizing m hist with
  | nil => simpa using h
  | cons t trades ih => simpa using ih h.handle

/-- What a trade does to a holding depends on that holding only. -/
lemma lookup_handle {s : ℕ} (hid : m.memberId = m'.memberId)
    (h : m.holdings.lookup s = m'.holdings.lookup s) :
    (m.handle arith sessions t).holdings.lookup s
      = (m'.handle arith sessions t).holdings.lookup s := by
  have hside : ∀ who isBuy (m m' : MemberState), m.memberId = m'.memberId →
      m.holdings.lookup s = m'.holdings.lookup s →
      (m.takeSide arith who t isBuy).holdings.lookup s
        = (m'.takeSide arith who t isBuy).holdings.lookup s := by
    intro who isBuy m m' hid h
    unfold takeSide
    rw [hid]
    split
    · rw [lookup_processTradeSide, lookup_processTradeSide, h]
    · exact h
  exact hside _ false _ _ (by simpa using hid) (hside _ true m m' hid h)

lemma lookup_handle_of_ne {s : ℕ} (hs : s ≠ t.symbolIdx) :
    (m.handle arith sessions t).holdings.lookup s = m.holdings.lookup s := by
  unfold handle takeSide
  split <;> split <;> simp [lookup_processTradeSide, hs]

/-- What trades do to a holding, those in its symbol do. -/
lemma lookup_settle {s : ℕ} (hid : m.memberId = m'.memberId)
    (h : m.holdings.lookup s = m'.holdings.lookup s) :
    (settle arith sessions trades m).holdings.lookup s
      = (settle arith sessions (trades.filter fun t => t.symbolIdx = s) m').holdings.lookup s := by
  induction trades generalizing m m' with
  | nil => exact h
  | cons t trades ih =>
    by_cases hs : t.symbolIdx = s
    · rw [List.filter_cons_of_pos (by simpa using hs)]
      exact ih (by simpa using hid) (lookup_handle hid h)
    · rw [List.filter_cons_of_neg (by simpa using hs)]
      exact ih (by simpa using hid) ((lookup_handle_of_ne (Ne.symm hs)).trans h)

/-- Lists with the same trades in each symbol, in order, are the same but for how the symbols are
interleaved. -/
lemma perm_of_filter (h : ∀ s, trades.filter (fun t => t.symbolIdx = s)
    = trades'.filter fun t => t.symbolIdx = s) : trades.Perm trades' := by
  rw [List.perm_iff_count]
  intro t
  have hcount : ∀ l : List Trade, l.count t
      = (l.filter fun t' => t'.symbolIdx = t.symbolIdx).count t :=
    fun l => (List.count_filter (by simp)).symm
  rw [hcount trades, hcount trades', h]

/-- How the trades in different symbols are interleaved makes no difference to a member. -/
theorem settle_eq (hm : m.Accounted arith sessions hist)
    (h : ∀ s, trades.filter (fun t => t.symbolIdx = s)
      = trades'.filter fun t => t.symbolIdx = s) :
    settle arith sessions trades m = settle arith sessions trades' m := by
  have hperm := perm_of_filter h
  have ha := hm.settle trades
  have ha' := hm.settle trades'
  have hinitial : (settle arith sessions trades m).initialCapital
      = (settle arith sessions trades' m).initialCapital :=
    ha.initialCapital.trans ha'.initialCapital.symm
  have hholdings : (settle arith sessions trades m).holdings
      = (settle arith sessions trades' m).holdings := by
    apply Finmap.ext_lookup
    intro s
    have hfilter : ∀ l : List Trade, (settle arith sessions l m).holdings.lookup s
        = (settle arith sessions (l.filter fun t => t.symbolIdx = s) m).holdings.lookup s :=
      fun l => lookup_settle rfl rfl
    rw [hfilter trades, hfilter trades', h]
  have hcapital : (settle arith sessions trades m).capital
      = (settle arith sessions trades' m).capital := by
    rw [ha.capital, ha'.capital, hinitial, memberId_settle, memberId_settle,
      Tally.balance_perm (hperm.append_left hist), Tally.balance_perm (hperm.append_left hist)]
  have hcount : (settle arith sessions trades m).tradeCount
      = (settle arith sessions trades' m).tradeCount := by
    rw [ha.tradeCount, ha'.tradeCount, memberId_settle, memberId_settle,
      Tally.balance_perm (hperm.append_left hist)]
  have hdistinct : (settle arith sessions trades m).distinctSymbols
      = (settle arith sessions trades' m).distinctSymbols := by
    rw [ha.distinctSymbols, ha'.distinctSymbols, hholdings]
  have hid : (settle arith sessions trades m).memberId
      = (settle arith sessions trades' m).memberId := by
    rw [memberId_settle, memberId_settle]
  have hname : (settle arith sessions trades m).name
      = (settle arith sessions trades' m).name := by
    rw [name_settle, name_settle]
  cases hx : settle arith sessions trades m
  cases hy : settle arith sessions trades' m
  simp_all

end MemberState

namespace ClearingHouseActor

variable {arith : Arithmetic} {trades trades' : List Trade}

lemma members_foldl (a : ClearingHouseActor) (trades : List Trade) :
    (trades.foldl (onEvent arith) a).members
      = a.members.map (MemberState.settle arith a.sessionToMember trades) := by
  induction trades generalizing a with
  | nil =>
    rw [List.foldl_nil]
    exact (List.map_id _).symm
  | cons t trades ih =>
    rw [List.foldl_cons, ih, sessionToMember_onEvent, members_onEvent, List.map_map]
    rfl

/-- How the trades in different symbols are interleaved makes no difference to the members. -/
theorem members_interleaved (arith : Arithmetic) (pairs : List (ℕ × ℕ))
    (h : ∀ s, trades.filter (fun t => t.symbolIdx = s)
      = trades'.filter fun t => t.symbolIdx = s) :
    (trades.foldl (onEvent arith) (mapped pairs)).members
      = (trades'.foldl (onEvent arith) (mapped pairs)).members := by
  rw [members_foldl, members_foldl]
  apply List.map_congr_left
  intro m hm
  exact MemberState.settle_eq ((accounted_mapped arith pairs).members m hm) h

end ClearingHouseActor

/-! ### Market data -/

/-- The output is about this symbol. -/
def MECoreOutput.About (s : ℕ) : MECoreOutput → Prop
  | .marketTrade trade => trade.symbolIdx = s
  | .clearingTrade trade => trade.symbolIdx = s
  | .bookUpdate event => event.symbolIdx = s
  | _ => True

namespace MDGActor

variable {m m' : MDGActor} {x : MECoreOutput} {s : ℕ}

/-- What is delivered changes a snapshot in a way that depends on that snapshot only. -/
lemma getSnapshot_deliver (h : m.getSnapshot s = m'.getSnapshot s) :
    (m.deliver x).getSnapshot s = (m'.deliver x).getSnapshot s := by
  unfold getSnapshot at h ⊢
  cases x with
  | marketTrade t =>
    by_cases hs : s = t.symbolIdx
    · subst hs
      simp [deliver, onTrade, snapshot, h]
    · simpa [deliver, onTrade, Finmap.lookup_insert_of_ne _ hs] using h
  | bookUpdate u =>
    by_cases hs : s = u.symbolIdx
    · subst hs
      simp [deliver, onBookUpdate, snapshot, h]
    · simpa [deliver, onBookUpdate, Finmap.lookup_insert_of_ne _ hs] using h
  | _ => exact h

lemma getSnapshot_deliver_of_about {s' : ℕ} (hx : x.About s') (hs : s ≠ s') :
    (m.deliver x).getSnapshot s = m.getSnapshot s := by
  cases x with
  | marketTrade t =>
    have hne : s ≠ t.symbolIdx := fun heq => hs (heq.trans hx)
    exact Finmap.lookup_insert_of_ne _ hne
  | bookUpdate u =>
    have hne : s ≠ u.symbolIdx := fun heq => hs (heq.trans hx)
    exact Finmap.lookup_insert_of_ne _ hne
  | _ => rfl

end MDGActor

/-! ### The actors on their cores -/

/-- The actors that the matching cores push to. -/
inductive Receiver where
  | oeg
  | mdg
  | ch
deriving DecidableEq, Repr

/-- Their states. Of the gateway the reports it has recorded, each with the symbol of the core that
it came from (`sourceActorId_`). -/
structure Receivers where
  reports : List (ℕ × ExecReportEvent)
  mdg : MDGActor
  ch : ClearingHouseActor

namespace Receivers

/-- The handler of a receiver, for an output of the core of a symbol. -/
def deliver (arith : Arithmetic) (r : Receivers) : ℕ × MECoreOutput → Receivers
  | (s, .execReport event) => { r with reports := r.reports ++ [(s, event)] }
  | (s, .refusal event) => { r with reports := r.reports ++ [(s, event)] }
  | (_, .clearingTrade trade) => { r with ch := r.ch.onEvent arith trade }
  | (_, out) => { r with mdg := r.mdg.deliver out }

/-- The reports recorded for a symbol. -/
def reportsOf (r : Receivers) (s : ℕ) : List (ℕ × ExecReportEvent) :=
  r.reports.filter fun report => report.1 = s

end Receivers

/-- The pipe that an output is pushed through: `oePipe_`, `mdPipe_` or `chPipe_`. -/
def MECoreOutput.receiver : MECoreOutput → Option Receiver
  | .execReport _ | .refusal _ => some .oeg
  | .marketTrade _ | .bookUpdate _ => some .mdg
  | .clearingTrade _ => some .ch
  | .entered _ _ => none

/-- The actors that are placed on cores. -/
inductive ActorName where
  | oeg
  | book (symbolIdx : ℕ)
  | mdg
  | ch
deriving DecidableEq, Repr

namespace Engine

/-- The exchange as a pipeline: the gateway hands a request to the core of its symbol. -/
def exchange (arith : Arithmetic) (symbols : List ℕ) :
    Pipeline ℕ MECoreEvent MECoreOutput MECoreActor Receivers Receiver where
  key event := if event.symbolIdx ∈ symbols then some event.symbolIdx else none
  work core event := core.step (OEGActor.forward event)
  sink := MECoreOutput.receiver
  absorb := Receivers.deliver arith

/-- `getCore` of each actor. -/
def placement {κ : Type*} (getCore : ActorName → κ) : Pipeline.Placement ℕ Receiver κ where
  source := getCore .oeg
  worker symbolIdx := getCore (.book symbolIdx)
  sink
    | .oeg => getCore .oeg
    | .mdg => getCore .mdg
    | .ch => getCore .ch

variable {κ : Type*} [DecidableEq κ]

/-- The actors, their books empty and `mapSession` called for these pairs. -/
def start (pairs : List (ℕ × ℕ)) :
    Pipeline.State ℕ MECoreEvent MECoreOutput MECoreActor Receivers κ :=
  Pipeline.start (fun symbolIdx => .new symbolIdx true) ⟨[], {}, .mapped pairs⟩

/-- Threaded mode: the calls at the gateway, and the turns of the cores, in the order of the
schedule. -/
def threaded (arith : Arithmetic) (symbols : List ℕ) (getCore : ActorName → κ)
    (pairs : List (ℕ × ℕ)) (calls : List MECoreEvent) (schedule : List (Pipeline.Turn κ)) :
    Pipeline.State ℕ MECoreEvent MECoreOutput MECoreActor Receivers κ × List MECoreEvent :=
  (exchange arith symbols).exec (placement getCore) true schedule (start pairs, calls)

/-- Synchronous mode. -/
def synchronous (arith : Arithmetic) (symbols : List ℕ) (getCore : ActorName → κ)
    (pairs : List (ℕ × ℕ)) (calls : List MECoreEvent) :
    Pipeline.State ℕ MECoreEvent MECoreOutput MECoreActor Receivers κ :=
  (exchange arith symbols).sync (placement getCore) calls (start pairs)

/-- Two ends that nobody can tell apart: the books, the reports recorded for each symbol, the
snapshots, and the members of the clearing house are the same. -/
structure Agree (x y : Pipeline.State ℕ MECoreEvent MECoreOutput MECoreActor Receivers κ) :
    Prop where
  books : ∀ s, (x.workers s).book = (y.workers s).book
  reports : ∀ s, x.store.reportsOf s = y.store.reportsOf s
  snapshots : ∀ s, x.store.mdg.getSnapshot s = y.store.mdg.getSnapshot s
  members : x.store.ch.members = y.store.ch.members

/-! ### What a core says is about its symbol -/

lemma about_step {a : MECoreActor} {h : List MECoreOutput} (hs : a.Sound h)
    (event : MECoreEvent) : ∀ x ∈ (a.step event).2, x.About a.book.symbolIdx := by
  obtain ⟨hsym, htrades⟩ := MECoreActor.symbolIdx_step hs event
  have hmarket : ∀ t, .marketTrade t ∈ (a.step event).2 → t.symbolIdx = a.book.symbolIdx :=
    fun t ht => htrades t (List.mem_filterMap.mpr ⟨_, ht, rfl⟩)
  have hclearing : ∀ t, .clearingTrade t ∈ (a.step event).2 →
      .marketTrade t ∈ (a.step event).2 := by
    intro t ht
    cases event with
    | newOrder event =>
      rw [MECoreActor.outputs_newOrder] at ht ⊢
      simp only [List.mem_append, List.mem_flatMap, List.mem_singleton, reduceCtorEq,
        or_false] at ht ⊢
      obtain ⟨ev, hev, hmem⟩ := ht
      refine ⟨ev, hev, ?_⟩
      cases ev with
      | trade t' =>
        by_cases hc : a.hasClearingHouse <;> simp_all [MECoreActor.callback]
      | _ => simp [MECoreActor.callback] at hmem
    | cancelOrder event =>
      cases hc : a.book.cancelOrder event.orderId with
      | none => simp [MECoreActor.step_cancelOrder_none hc] at ht
      | some c => simp [MECoreActor.step_cancelOrder_some hc] at ht
    | modifyOrder event =>
      cases hc : a.book.cancelOrder event.orderId with
      | none => simp [MECoreActor.step_modifyOrder_none hc] at ht
      | some c =>
        obtain ⟨r, -, hstep⟩ := MECoreActor.step_modifyOrder_some hc
        simp [hstep] at ht
  intro x hx
  cases x with
  | marketTrade t => exact hmarket t hx
  | clearingTrade t => exact hmarket t (hclearing t hx)
  | bookUpdate u =>
    rcases a.step_cases event with ⟨r, heq⟩ | ⟨pre, hnone, heq⟩
    · simp [heq] at hx
    · rw [heq, List.mem_append, List.mem_singleton] at hx
      rcases hx with hx | hx
      · exact absurd hx (hnone u)
      · cases hx
        exact hsym
  | _ => trivial

/-- All that a core puts out in the course of a run is about its symbol. -/
lemma about_run (arith : Arithmetic) (symbols : List ℕ) (s : ℕ) (events : List MECoreEvent) :
    ∀ x ∈ (Machine.run (exchange arith symbols).work (.new s true) events).2, x.About s := by
  have halong : Machine.Along (exchange arith symbols).work (fun _ _ => True) (.new s true)
      events := Machine.along_of_forall (by simp)
  have hrun := Machine.run_induction (h := [])
    (Q := fun a h => a.Sound h ∧ a.book.symbolIdx = s ∧ ∀ x ∈ h, x.About s)
    (fun a h event _ ⟨hs, hsym, hall⟩ => by
      refine ⟨hs.step _, (MECoreActor.symbolIdx_step hs _).1.trans hsym, fun x hx => ?_⟩
      rcases List.mem_append.mp hx with hx | hx
      · exact hall x hx
      · exact hsym ▸ about_step hs _ x hx)
    halong ⟨MECoreActor.Sound.new s true, rfl, by simp⟩
  exact hrun.2.2

/-! ### Agreement -/

/-- The trades that the clearing house hears of. -/
def cleared (l : List (ℕ × MECoreOutput)) : List Trade :=
  l.filterMap fun x => match x.2 with
    | .clearingTrade trade => some trade
    | _ => none

section

variable {arith : Arithmetic} {symbols : List ℕ} {l l' : List (ℕ × MECoreOutput)} {r : Receivers}

lemma ch_foldl : (l.foldl (Receivers.deliver arith) r).ch
    = (cleared l).foldl (ClearingHouseActor.onEvent arith) r.ch := by
  induction l generalizing r with
  | nil => rfl
  | cons x l ih =>
    obtain ⟨s, out⟩ := x
    cases out <;> exact ih

/-- The trades of a symbol are those that its core pushes. -/
lemma cleared_filter (arith : Arithmetic) (symbols : List ℕ) (habout : ∀ x ∈ l, x.2.About x.1)
    (s : ℕ) :
    (cleared l).filter (fun t => t.symbolIdx = s)
      = cleared ((exchange arith symbols).stream s .ch l) := by
  induction l with
  | nil => rfl
  | cons x l ih =>
    have hrest := ih fun x hx => habout x (by simp [hx])
    have hx := habout x (by simp)
    obtain ⟨s', out⟩ := x
    rw [Pipeline.stream_cons]
    cases out with
    | clearingTrade t =>
      obtain rfl : t.symbolIdx = s' := hx
      by_cases hs : t.symbolIdx = s
      · simpa [cleared, exchange, MECoreOutput.receiver, hs] using hrest
      · simpa [cleared, exchange, MECoreOutput.receiver, hs] using hrest
    | _ => simpa [cleared, exchange, MECoreOutput.receiver] using hrest

lemma reports_foldl (h : ∀ s d, (exchange arith symbols).stream s d l
      = (exchange arith symbols).stream s d l') (s : ℕ) :
    (l.foldl (Receivers.deliver arith) r).reportsOf s
      = (l'.foldl (Receivers.deliver arith) r).reportsOf s := by
  have hobserve : ∀ l : List (ℕ × MECoreOutput), (l.foldl (Receivers.deliver arith) r).reportsOf s
      = (((exchange arith symbols).stream s .oeg l).foldl (Receivers.deliver arith) r).reportsOf
        s := by
    intro l
    apply Pipeline.observe_foldl (exchange arith symbols) (fun r => r.reportsOf s)
    · rintro r r' ⟨s', out⟩ heq
      cases out <;> simp_all [exchange, Receivers.deliver, Receivers.reportsOf]
    · rintro r ⟨s', out⟩ - hne
      cases out <;> simp_all [exchange, Receivers.deliver, Receivers.reportsOf,
        MECoreOutput.receiver]
    · rfl
  rw [hobserve l, hobserve l', h]

lemma snapshots_foldl (h : ∀ s d, (exchange arith symbols).stream s d l
      = (exchange arith symbols).stream s d l') (habout : ∀ x ∈ l, x.2.About x.1)
    (habout' : ∀ x ∈ l', x.2.About x.1) (s : ℕ) :
    (l.foldl (Receivers.deliver arith) r).mdg.getSnapshot s
      = (l'.foldl (Receivers.deliver arith) r).mdg.getSnapshot s := by
  have hobserve : ∀ l : List (ℕ × MECoreOutput), (∀ x ∈ l, x.2.About x.1) →
      (l.foldl (Receivers.deliver arith) r).mdg.getSnapshot s
        = (((exchange arith symbols).stream s .mdg l).foldl (Receivers.deliver arith)
          r).mdg.getSnapshot s := by
    intro l habout
    apply Pipeline.observe_foldl (exchange arith symbols) (fun r => r.mdg.getSnapshot s)
    · rintro r r' ⟨s', out⟩ heq
      cases out with
      | marketTrade t => exact MDGActor.getSnapshot_deliver heq
      | bookUpdate u => exact MDGActor.getSnapshot_deliver heq
      | _ => exact heq
    · rintro r ⟨s', out⟩ hmem hne
      cases out with
      | marketTrade t =>
        exact MDGActor.getSnapshot_deliver_of_about (habout _ hmem) fun hs => hne ⟨hs.symm, rfl⟩
      | bookUpdate u =>
        exact MDGActor.getSnapshot_deliver_of_about (habout _ hmem) fun hs => hne ⟨hs.symm, rfl⟩
      | _ => rfl
    · rfl
  rw [hobserve l habout, hobserve l' habout', h]

end

section

variable {arith : Arithmetic} {symbols : List ℕ} {getCore : ActorName → κ}
  {pairs : List (ℕ × ℕ)} {calls : List MECoreEvent}
  {x y : Pipeline.State ℕ MECoreEvent MECoreOutput MECoreActor Receivers κ}

/-- The end of a schedule, in either mode. -/
structure Ends (arith : Arithmetic) (symbols : List ℕ) (pairs : List (ℕ × ℕ))
    (calls : List MECoreEvent)
    (x : Pipeline.State ℕ MECoreEvent MECoreOutput MECoreActor Receivers κ) : Prop where
  workers : ∀ s, x.workers s = (Machine.run (exchange arith symbols).work (.new s true)
    (calls.filter fun a => (exchange arith symbols).key a = some s)).1
  delivered : ∃ l : List (ℕ × MECoreOutput),
    x.store = l.foldl (Receivers.deliver arith) ⟨[], {}, .mapped pairs⟩ ∧
    ∀ s d, (exchange arith symbols).stream s d l
      = ((Machine.run (exchange arith symbols).work (.new s true)
          (calls.filter fun a => (exchange arith symbols).key a = some s)).2.filter
        fun b => (exchange arith symbols).sink b = some d).map (s, ·)

lemma ends_of_quiescent {mode : Bool} {schedule : List (Pipeline.Turn κ)}
    {r : Pipeline.State ℕ MECoreEvent MECoreOutput MECoreActor Receivers κ × List MECoreEvent}
    (hr : (exchange arith symbols).exec (placement getCore) mode schedule (start pairs, calls) = r)
    (hdone : Pipeline.Quiescent r) : Ends arith symbols pairs calls r.1 := by
  obtain ⟨hworkers, l, hstore, hstreams⟩ := Pipeline.quiescent_exec schedule hr hdone
  exact ⟨hworkers, l, hstore, hstreams⟩

omit [DecidableEq κ] in
/-- Two ends agree. -/
lemma Ends.agree (hx : Ends arith symbols pairs calls x) (hy : Ends arith symbols pairs calls y) :
    Agree x y := by
  obtain ⟨l, hstore, hstreams⟩ := hx.delivered
  obtain ⟨l', hstore', hstreams'⟩ := hy.delivered
  have habout : ∀ l : List (ℕ × MECoreOutput), (∀ s d, (exchange arith symbols).stream s d l
      = ((Machine.run (exchange arith symbols).work (.new s true)
          (calls.filter fun a => (exchange arith symbols).key a = some s)).2.filter
        fun b => (exchange arith symbols).sink b = some d).map (s, ·)) →
      ∀ x ∈ l, x.2.About x.1 := by
    rintro l hl ⟨s, out⟩ hmem
    cases hd : out.receiver with
    | none =>
      cases out with
      | entered => trivial
      | _ => cases hd
    | some d =>
      have hstream : (s, out) ∈ (exchange arith symbols).stream s d l :=
        List.mem_filter.mpr ⟨hmem, by simpa [exchange] using hd⟩
      rw [hl, List.mem_map] at hstream
      obtain ⟨out', hout', heq⟩ := hstream
      cases heq
      exact about_run arith symbols s _ out (List.mem_filter.mp hout').1
  have hsame : ∀ s d, (exchange arith symbols).stream s d l
      = (exchange arith symbols).stream s d l' := by
    intro s d
    rw [hstreams, hstreams']
  constructor
  · intro s
    rw [hx.workers, hy.workers]
  · intro s
    rw [hstore, hstore']
    exact reports_foldl hsame s
  · intro s
    rw [hstore, hstore']
    exact snapshots_foldl hsame (habout l hstreams) (habout l' hstreams') s
  · rw [hstore, hstore', ch_foldl, ch_foldl]
    apply ClearingHouseActor.members_interleaved
    intro s
    rw [cleared_filter arith symbols (habout l hstreams),
      cleared_filter arith symbols (habout l' hstreams'), hsame]

end

/-- Wherever the actors are placed, and however the turns of the cores are interleaved with the
calls at the gateway and with each other: once all calls have been made and all mailboxes are
empty, the exchange is where synchronous mode would have brought it. -/
theorem run_agree (arith : Arithmetic) (symbols : List ℕ) (getCore : ActorName → κ)
    (pairs : List (ℕ × ℕ)) (calls : List MECoreEvent) (schedule : List (Pipeline.Turn κ))
    (hdone : Pipeline.Quiescent (threaded arith symbols getCore pairs calls schedule)) :
    Agree (threaded arith symbols getCore pairs calls schedule).1
      (synchronous arith symbols getCore pairs calls) := by
  have hsync : (exchange arith symbols).exec (placement getCore) false (calls.map fun _ => .call)
      (start pairs, calls) = (synchronous arith symbols getCore pairs calls, []) :=
    Pipeline.exec_sync calls (start pairs)
  have hquiet : Pipeline.Quiescent ((exchange arith symbols).exec (placement getCore) false
      (calls.map fun _ => .call) (start pairs, calls)) := Pipeline.quiescent_sync calls
  exact (ends_of_quiescent rfl hdone).agree (ends_of_quiescent hsync (hsync ▸ hquiet))

/-- Two symbols on two cores, market data on a third, and the clearing house with the gateway. The
turns of the cores come in between the calls. -/
theorem run_agree_two_symbols :
    let getCore : ActorName → Fin 3
      | .book 1 => 1
      | .book _ => 2
      | .mdg => 2
      | _ => 0
    let calls : List MECoreEvent := [.newOrder ⟨1, 1, .sell, .limit, .day, 10, 5, 100, 0⟩,
      .newOrder ⟨2, 2, .sell, .limit, .day, 20, 5, 101, 0⟩,
      .newOrder ⟨3, 1, .buy, .limit, .day, 10, 5, 101, 0⟩,
      .newOrder ⟨4, 2, .buy, .limit, .day, 20, 5, 100, 0⟩]
    let schedule : List (Pipeline.Turn (Fin 3)) := [.call, .call, .core 2, .call, .core 1, .core 1,
      .call, .core 2, .core 2, .core 2, .core 2, .core 0, .core 0, .core 2, .core 0, .core 0,
      .core 0, .core 0, .core 0, .core 0, .core 2, .core 2]
    let pairs := [(100, 1), (101, 2)]
    Agree (threaded .exact [1, 2] getCore pairs calls schedule).1
      (synchronous .exact [1, 2] getCore pairs calls) :=
  run_agree .exact _ _ _ _ _ ⟨by decide +kernel, by decide +kernel⟩

end Engine

end EuNEx
