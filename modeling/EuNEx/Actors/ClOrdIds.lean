import EuNEx.Actors.FIXAcceptor
import EuNEx.Actors.Gateway
import EuNEx.Actors.Sessions

/-!
# Client order ids

The text in tag 11 of a NewOrderSingle is read as a number, and that number is printed in tag 11 of
every report on the order. An order is known by its symbol and its id.
-/

namespace EuNEx

open Book
open CString (strtoull)

/-! ### What a step of a core adds to the history of its book -/

namespace MECoreActor

variable {a : MECoreActor} {hist : List BookEvent}

/-- The orders that a request enters: the new order and stops that it triggers, or the order that
replaces one. -/
def Enters (a : MECoreActor) : MECoreEvent → Order → Prop
  | .newOrder event, e => e = a.book.entered event.order ∨ a.book.nextOrderId < e.orderId
  | .cancelOrder _, _ => False
  | .modifyOrder event, e => ∃ c, a.book.cancelOrder event.orderId = some c ∧
      e.orderId = a.book.nextOrderId ∧ e.clOrdId = c.removed.clOrdId

/-- The history of the book goes on with the orders that enter and the reports that are pushed. -/
lemma exists_log (hb : a.book.Sound hist) (event : MECoreEvent) :
    ∃ log, (a.step event).1.book.Sound (hist ++ log) ∧
      (∀ ev, .execReport ev ∈ (a.step event).2 → .exec ev.toExecutionReport ∈ log) ∧
      ∀ e, .entry e ∈ log → a.Enters event e := by
  cases event with
  | newOrder event =>
    have hsound := sound_enterOrder hb event.order
    refine ⟨(a.enterOrder event.order).log, hsound, fun ev hev => ?_, fun e he => ?_⟩
    · rw [outputs_newOrder, List.mem_append, execReport_mem_callback] at hev
      rcases hev with hev | hev
      · exact hev.1
      · simp at hev
    · rcases (entry_enterOrder hb he).eq_or_lt with hid | hlt
      · obtain ⟨log, hlog⟩ := a.enterOrder_entry hb.shape.levels event.order
        refine Or.inl (entry_unique hsound.laws.ids.entryIds_nodup (List.mem_append_right _ he) ?_
          hid.symm)
        simp [ledger, hlog]
      · exact Or.inr hlt
  | cancelOrder event =>
    cases hc : a.book.cancelOrder event.orderId with
    | none =>
      rw [step_cancelOrder_none hc]
      exact ⟨[], by simpa using hb, by simp, by simp⟩
    | some c =>
      rw [step_cancelOrder_some hc]
      refine ⟨_, hb.cancel (removes_of_cancelOrder hb.shape hc), ?_, ?_⟩
      · simp [Cancel.outcome]
      · simp [Cancel.outcome]
  | modifyOrder event =>
    cases hc : a.book.cancelOrder event.orderId with
    | none =>
      rw [step_modifyOrder_none hc]
      exact ⟨[], by simpa using hb, by simp, by simp⟩
    | some c =>
      have hrem := removes_of_cancelOrder hb.shape hc
      have hbook : (a.step (.modifyOrder event)).1.book
          = (c.replaced event.newPrice event.newQuantity).book := by
        simp [step, onModifyOrder, modifyOrder, hc, Cancel.replaced]
      refine ⟨(c.replaced event.newPrice event.newQuantity).log, ?_, ?_, ?_⟩
      · rw [hbook]
        exact hb.replaced hrem event.newPrice event.newQuantity
      · intro ev hev
        simp only [step, onModifyOrder, modifyOrder, hc, Option.map_some, List.mem_cons,
          MECoreOutput.execReport.injEq, reduceCtorEq, List.not_mem_nil, or_false, false_or] at hev
        simp [Cancel.replaced, hev]
      · intro e he
        simp only [Cancel.replaced, List.mem_cons, BookEvent.entry.injEq, reduceCtorEq,
          List.not_mem_nil, or_false, false_or] at he
        refine ⟨c, hc, ?_, ?_⟩
        · rw [he]
          exact hrem.nextOrderId
        · rw [he]
          exact hrem.clOrdId

end MECoreActor

/-- What comes to the gateway: a NewOrderSingle of a FIX session, or a request from elsewhere. -/
inductive ClientRequest where
  | newOrderSingle (sess : FIXSession) (msg : TagMap)
  | request (event : MECoreEvent)

def ClientRequest.event (px : PriceText) : ClientRequest → MECoreEvent
  | .newOrderSingle sess msg => .newOrder (handleNewOrderSingle px sess msg)
  | .request event => event

/-- What there is to see of orders and their reports. -/
inductive ClientEvent where
  /-- the order of a NewOrderSingle has received its id -/
  | entered (symbolIdx orderId : ℕ) (clOrdID : List Char)
  /-- an order is replaced by a new one -/
  | replaced (symbolIdx orderId newOrderId : ℕ)
  /-- a report on an order; a refusal answers a request that found no order, and is none -/
  | reported (symbolIdx : ℕ) (report : ExecReportEvent)
deriving DecidableEq, Repr

/-- The text in tag 11 of an ExecutionReport. -/
def clOrdIDText (px : PriceText) (report : ExecReportEvent) : List Char :=
  ((FIXAcceptorActor.execReportFields px report).lookup 11).getD []

@[simp] lemma clOrdIDText_eq (px : PriceText) (report : ExecReportEvent) :
    clOrdIDText px report = CString.toString report.clOrdId := rfl

namespace Gateway

/-- What a request does to the names of orders. -/
def named (core : MECoreActor) : ClientRequest → List ClientEvent
  | .newOrderSingle _ msg =>
    [.entered (symbolFromString (getTag msg 55 [])) core.book.nextOrderId (getTag msg 11 [])]
  | .request (.modifyOrder event) =>
    if (core.book.cancelOrder event.orderId).isSome then
      [.replaced event.symbolIdx event.orderId core.book.nextOrderId]
    else []
  | .request _ => []

def reported (symbolIdx : ℕ) (outs : List MECoreOutput) : List ClientEvent :=
  outs.filterMap fun
    | .execReport event => some (.reported symbolIdx event)
    | _ => none

/-- The gateway receives a request, and its matching core handles it. -/
def stepClient (px : PriceText) (g : Gateway) (input : ClientRequest) :
    Gateway × List ClientEvent :=
  match g.books.lookup (input.event px).symbolIdx with
  | none => (g, [])
  | some core =>
    let r := core.step (OEGActor.forward (input.event px))
    (⟨g.books.insert (input.event px).symbolIdx r.1⟩,
      named core input ++ reported (input.event px).symbolIdx r.2)

/-! ### The ClOrdID of an order -/

/-- What an event makes of the ClOrdIDs by which orders are known. -/
def knownAfter (known : ℕ → ℕ → Option (List Char)) : ClientEvent → ℕ → ℕ → Option (List Char)
  | .entered symbolIdx orderId clOrdID => fun s id =>
    if s = symbolIdx ∧ id = orderId then some clOrdID else known s id
  | .replaced symbolIdx orderId newOrderId => fun s id =>
    if s = symbolIdx ∧ id = newOrderId then known symbolIdx orderId else known s id
  | .reported _ _ => known

/-- The ClOrdID of the NewOrderSingle that an order comes from. -/
def clOrdID (h : List ClientEvent) : ℕ → ℕ → Option (List Char) :=
  h.foldl knownAfter fun _ _ => none

/-- A report carries the ClOrdID of its order, and no other order's report does. -/
def Carried (px : PriceText) (h : List ClientEvent) : ClientEvent → Prop
  | .reported s r => ∀ text, clOrdID h s r.orderId = some text → clOrdIDText px r = text ∧
      ∀ s' r' text', .reported s' r' ∈ h → clOrdID h s' r'.orderId = some text' →
        text' ≠ text → clOrdIDText px r' ≠ clOrdIDText px r
  | _ => True

/-- The ClOrdID of an order for a mapped symbol is the decimal of a number in 64 bits. -/
def HasDecimal (g : Gateway) : ClientRequest → Prop
  | .newOrderSingle _ msg => g.books.lookup (symbolFromString (getTag msg 55 [])) ≠ none →
      ∃ n < 2 ^ 64, getTag msg 11 [] = CString.toString n
  | .request _ => True

variable {px : PriceText} {g : Gateway} {core : MECoreActor} {s : ℕ} {h : List ClientEvent}
  {outs : List MECoreOutput}

lemma clOrdID_append (k : List ClientEvent) : clOrdID (h ++ k) = k.foldl knownAfter (clOrdID h) :=
  List.foldl_append

lemma exists_of_mem_reported {e : ClientEvent} (he : e ∈ reported s outs) :
    ∃ r, e = .reported s r ∧ .execReport r ∈ outs := by
  obtain ⟨out, hout, heq⟩ := List.mem_filterMap.mp he
  cases out with
  | execReport r =>
    cases heq
    exact ⟨r, rfl, hout⟩
  | _ => cases heq

/-- Reports name no orders. -/
lemma clOrdID_reports {k : List ClientEvent} (hk : ∀ e ∈ k, ∃ s r, e = .reported s r) :
    clOrdID (h ++ k) = clOrdID h := by
  rw [clOrdID_append]
  induction k with
  | nil => rfl
  | cons e k ih =>
    obtain ⟨s, r, rfl⟩ := hk e (by simp)
    exact ih fun e he => hk e (by simp [he])

lemma clOrdID_reported (k : List ClientEvent) :
    clOrdID (h ++ (k ++ reported s outs)) = clOrdID (h ++ k) := by
  rw [← List.append_assoc]
  refine clOrdID_reports fun e he => ?_
  obtain ⟨r, rfl, -⟩ := exists_of_mem_reported he
  exact ⟨s, r, rfl⟩

lemma reported_not_mem_named {input : ClientRequest} {r : ExecReportEvent} :
    .reported s r ∉ named core input := by
  cases input with
  | newOrderSingle sess msg => simp [named]
  | request event =>
    cases event with
    | newOrder event => simp [named]
    | cancelOrder event => simp [named]
    | modifyOrder event =>
      by_cases hc : (core.book.cancelOrder event.orderId).isSome = true <;> simp [named, hc]

/-- What `named` says is about the next id of the symbol. -/
lemma clOrdID_named (px : PriceText) (input : ClientRequest) {s' id : ℕ}
    (hne : s' ≠ (input.event px).symbolIdx ∨ id ≠ core.book.nextOrderId) :
    clOrdID (h ++ named core input) s' id = clOrdID h s' id := by
  rw [clOrdID_append]
  cases input with
  | newOrderSingle sess msg =>
    have hother : ¬(s' = symbolFromString (getTag msg 55 []) ∧ id = core.book.nextOrderId) := by
      rintro ⟨hs, hid⟩
      exact hne.elim (· hs) (· hid)
    simp [named, knownAfter, hother]
  | request event =>
    cases event with
    | newOrder event => rfl
    | cancelOrder event => rfl
    | modifyOrder event =>
      have hother : ¬(s' = event.symbolIdx ∧ id = core.book.nextOrderId) := by
        rintro ⟨hs, hid⟩
        exact hne.elim (· hs) (· hid)
      by_cases hc : (core.book.cancelOrder event.orderId).isSome = true <;>
        simp [named, knownAfter, hc, hother]

/-! ### The numbers behind the names -/

/-- The orders of a core were entered with the numbers of their ClOrdIDs, the next id is free, and
the reports are those of its book. -/
def Numbered (core : MECoreActor) (s : ℕ) (h : List ClientEvent) : Prop :=
  ∃ hist, core.book.Sound hist ∧
    (∀ e, .entry e ∈ hist → ∀ text, clOrdID h s e.orderId = some text → e.clOrdId = strtoull text) ∧
    (∀ id, core.book.nextOrderId ≤ id → clOrdID h s id = none) ∧
    ∀ r, .reported s r ∈ h → .exec r.toExecutionReport ∈ hist

/-- A report carries the number that its order was entered with. -/
lemma Numbered.clOrdId (hn : Numbered core s h) {r : ExecReportEvent} (hr : .reported s r ∈ h)
    {text : List Char} (htext : clOrdID h s r.orderId = some text) : r.clOrdId = strtoull text := by
  obtain ⟨hist, hb, hentries, -, hreports⟩ := hn
  obtain ⟨pre, post, hsplit⟩ := List.append_of_mem (hreports r hr)
  obtain ⟨-, e, he, hid, hcl, -⟩ := hb.laws.reports.always pre _ post hsplit
  have hmem : .entry e ∈ hist := by
    rw [hsplit]
    exact List.mem_append_left _ he
  exact hcl ▸ hentries e hmem text (hid.symm ▸ htext)

/-- The other cores are left alone. -/
lemma Numbered.other (hn : Numbered core s h) {k : List ClientEvent}
    (hk : ∀ id, clOrdID (h ++ k) s id = clOrdID h s id) (hnone : ∀ r, .reported s r ∉ k) :
    Numbered core s (h ++ k) := by
  obtain ⟨hist, hb, hentries, hfree, hreports⟩ := hn
  refine ⟨hist, hb, ?_, ?_, fun r hr => ?_⟩
  · simpa only [hk] using hentries
  · simpa only [hk] using hfree
  · rcases List.mem_append.mp hr with hr | hr
    · exact hreports r hr
    · exact absurd hr (hnone r)

/-- A name is given to the next id only if that is used up. -/
lemma next_lt_of_named (px : PriceText) {hist : List BookEvent} (hb : core.book.Sound hist)
    {input : ClientRequest} (hne : named core input ≠ []) : core.book.nextOrderId
      < (core.step (OEGActor.forward (input.event px))).1.book.nextOrderId := by
  cases input with
  | newOrderSingle sess msg =>
    exact nextOrderId_enterOrder hb _
  | request event =>
    cases event with
    | newOrder event => exact absurd rfl hne
    | cancelOrder event => exact absurd rfl hne
    | modifyOrder event =>
      cases hc : core.book.cancelOrder event.orderId with
      | none => simp [named, hc] at hne
      | some c =>
        have hrem := removes_of_cancelOrder hb.shape hc
        simp [ClientRequest.event, OEGActor.forward, OEGActor.submitModify, MECoreActor.step,
          MECoreActor.onModifyOrder, modifyOrder, hc, hrem.nextOrderId]

/-- An order that enters under a ClOrdID carries its number. -/
lemma Numbered.enters {hist : List BookEvent} (hb : core.book.Sound hist) {input : ClientRequest}
    (hentries : ∀ e, .entry e ∈ hist → ∀ text,
      clOrdID h (input.event px).symbolIdx e.orderId = some text → e.clOrdId = strtoull text)
    (hfree : ∀ id, core.book.nextOrderId ≤ id → clOrdID h (input.event px).symbolIdx id = none)
    {e : Order} (he : core.Enters (OEGActor.forward (input.event px)) e) {text : List Char}
    (htext : clOrdID (h ++ named core input) (input.event px).symbolIdx e.orderId = some text) :
    e.clOrdId = strtoull text := by
  cases input with
  | newOrderSingle sess msg =>
    rcases he with rfl | hlt
    · simp only [clOrdID_append, named, List.foldl_cons, List.foldl_nil, knownAfter] at htext
      rw [if_pos ⟨rfl, rfl⟩] at htext
      cases htext
      rfl
    · rw [clOrdID_named px _ (Or.inr hlt.ne'), hfree _ hlt.le] at htext
      cases htext
  | request event =>
    cases event with
    | newOrder event =>
      have hle : core.book.nextOrderId ≤ e.orderId := by
        rcases he with rfl | hlt
        · exact le_rfl
        · exact hlt.le
      have hnone : clOrdID h event.symbolIdx e.orderId = some text := by
        simpa [named, ClientRequest.event, MECoreEvent.symbolIdx] using htext
      cases hnone.symm.trans (hfree _ hle)
    | cancelOrder event => exact he.elim
    | modifyOrder event =>
      obtain ⟨c, hc, hid, hcl⟩ := he
      have hc : core.book.cancelOrder event.orderId = some c := hc
      have hrem := removes_of_cancelOrder hb.shape hc
      -- the replacement goes by the name of the order it replaces
      have hold : clOrdID h event.symbolIdx event.orderId = some text := by
        rw [clOrdID_append, hid] at htext
        simpa [named, hc, knownAfter, ClientRequest.event, MECoreEvent.symbolIdx] using htext
      obtain ⟨e', he', ht⟩ := hb.laws.ids.entered c.removed hrem.mem_live
      rw [hcl, ht.clOrdId]
      refine hentries e' he' text ?_
      rw [← ht.orderId, hrem.orderId]
      exact hold

/-- A core that handles a request goes on being numbered. -/
lemma Numbered.step (px : PriceText) (input : ClientRequest)
    (hn : Numbered core (input.event px).symbolIdx h) :
    Numbered (core.step (OEGActor.forward (input.event px))).1 (input.event px).symbolIdx
      (h ++ (named core input ++ reported (input.event px).symbolIdx
        (core.step (OEGActor.forward (input.event px))).2)) := by
  obtain ⟨hist, hb, hentries, hfree, hreports⟩ := hn
  obtain ⟨log, hb', hreports', henters⟩ :=
    core.exists_log hb (OEGActor.forward (input.event px))
  refine ⟨hist ++ log, hb', ?_, ?_, fun r hr => ?_⟩
  · intro e he text htext
    rw [clOrdID_reported] at htext
    rcases List.mem_append.mp he with he | he
    · have hlt : e.orderId < core.book.nextOrderId :=
        (hb.laws.ids.mem_entryIds_iff.mp (mem_entryIds.mpr ⟨e, he, rfl⟩)).2
      rw [clOrdID_named px _ (Or.inr hlt.ne)] at htext
      exact hentries e he text htext
    · exact Numbered.enters hb hentries hfree (henters e he) htext
  · intro id hid
    have hmono : core.book.nextOrderId
        ≤ (core.step (OEGActor.forward (input.event px))).1.book.nextOrderId := by
      have hlength := congrArg List.length hb'.laws.ids.entryIds
      have hlength' := congrArg List.length hb.laws.ids.entryIds
      have hpos := hb'.laws.ids.nextPos
      simp only [ledger, entryIds_append, List.length_append, List.length_range'] at *
      omega
    rw [clOrdID_reported]
    by_cases hnext : id = core.book.nextOrderId
    · have hnone : named core input = [] := by
        by_contra hne
        have := next_lt_of_named px hb hne
        omega
      rw [hnone, List.append_nil]
      exact hfree id hnext.ge
    · rw [clOrdID_named px _ (Or.inr hnext)]
      exact hfree id (hmono.trans hid)
  · rcases List.mem_append.mp hr with hr | hr
    · exact List.mem_append_left _ (hreports r hr)
    · rcases List.mem_append.mp hr with hr | hr
      · exact absurd hr reported_not_mem_named
      · obtain ⟨r', heq, hr'⟩ := exists_of_mem_reported hr
        cases heq
        exact List.mem_append_right _ (hreports' r hr')

/-! ### Runs -/

/-- All cores are numbered, all reports come from a core, and all names are decimals. -/
structure AllNumbered (g : Gateway) (h : List ClientEvent) : Prop where
  cores : ∀ s core, g.books.lookup s = some core → Numbered core s h
  reports : ∀ s r, .reported s r ∈ h → ∃ core, g.books.lookup s = some core
  decimal : ∀ s id text, clOrdID h s id = some text → CString.toString (strtoull text) = text

lemma AllNumbered.clOrdIDText (px : PriceText) (hg : AllNumbered g h) {r : ExecReportEvent}
    (hr : .reported s r ∈ h) {text : List Char} (htext : clOrdID h s r.orderId = some text) :
    clOrdIDText px r = text := by
  obtain ⟨core, hcore⟩ := hg.reports s r hr
  rw [clOrdIDText_eq, (hg.cores s core hcore).clOrdId hr htext]
  exact hg.decimal s r.orderId text htext

lemma allNumbered_mapped (symbols : List ℕ) (hasClearingHouse : Bool) :
    AllNumbered (mapped symbols hasClearingHouse) [] := by
  refine ⟨fun s core hcore => ?_, by simp, by simp [clOrdID]⟩
  rw [lookup_mapped] at hcore
  split at hcore
  · cases hcore
    exact ⟨[], Book.Sound.new s, by simp, by simp [clOrdID], by simp⟩
  · cases hcore

/-- A step after which the names are decimals keeps all cores numbered. -/
lemma AllNumbered.stepClient (hg : AllNumbered g h) {input : ClientRequest}
    (hcore : g.books.lookup (input.event px).symbolIdx = some core)
    (hdecimal : ∀ s id text, clOrdID (h ++ named core input) s id = some text →
      CString.toString (strtoull text) = text) :
    AllNumbered (g.stepClient px input).1 (h ++ (g.stepClient px input).2) := by
  simp only [Gateway.stepClient, hcore]
  refine ⟨fun s core' hcore' => ?_, fun s r hr => ?_, fun s id text htext => ?_⟩
  · by_cases hs : s = (input.event px).symbolIdx
    · subst hs
      simp only [Finmap.lookup_insert, Option.some.injEq] at hcore'
      subst hcore'
      exact (hg.cores _ core hcore).step px input
    · rw [Finmap.lookup_insert_of_ne _ hs] at hcore'
      refine (hg.cores s core' hcore').other (fun id => ?_) fun r hr => ?_
      · rw [clOrdID_reported, clOrdID_named px _ (Or.inl hs)]
      · rcases List.mem_append.mp hr with hr | hr
        · exact reported_not_mem_named hr
        · obtain ⟨r', heq, -⟩ := exists_of_mem_reported hr
          cases heq
          exact hs rfl
  · by_cases hs : s = (input.event px).symbolIdx
    · exact ⟨_, by rw [hs]; exact Finmap.lookup_insert _⟩
    · rw [Finmap.lookup_insert_of_ne _ hs]
      rcases List.mem_append.mp hr with hr | hr
      · exact hg.reports s r hr
      · rcases List.mem_append.mp hr with hr | hr
        · exact absurd hr reported_not_mem_named
        · obtain ⟨r', heq, -⟩ := exists_of_mem_reported hr
          cases heq
          exact absurd rfl hs
  · rw [clOrdID_reported] at htext
    exact hdecimal s id text htext

/-- Names stay decimals if the request brings one. -/
lemma AllNumbered.decimal_named (hg : AllNumbered g h) {input : ClientRequest}
    (hcore : g.books.lookup (input.event px).symbolIdx = some core) (hdecimal : HasDecimal g input)
    {s id : ℕ} {text : List Char} (htext : clOrdID (h ++ named core input) s id = some text) :
    CString.toString (strtoull text) = text := by
  rw [clOrdID_append] at htext
  cases input with
  | newOrderSingle sess msg =>
    have hmapped : g.books.lookup (symbolFromString (getTag msg 55 [])) = some core := hcore
    simp only [named, List.foldl_cons, List.foldl_nil, knownAfter] at htext
    split at htext
    · cases htext
      exact CString.toString_strtoull_eq_iff.mpr (hdecimal (by simp [hmapped]))
    · exact hg.decimal s id text htext
  | request event =>
    cases event with
    | newOrder event => exact hg.decimal s id text htext
    | cancelOrder event => exact hg.decimal s id text htext
    | modifyOrder event =>
      simp only [named] at htext
      split at htext
      · simp only [List.foldl_cons, List.foldl_nil, knownAfter] at htext
        split at htext
        · exact hg.decimal _ _ text htext
        · exact hg.decimal s id text htext
      · exact hg.decimal s id text htext

/-- The reports of a step carry what they should if the request brings a decimal. -/
lemma AllNumbered.carried (hg : AllNumbered g h) {input : ClientRequest}
    (hcore : g.books.lookup (input.event px).symbolIdx = some core)
    (hdecimal : HasDecimal g input) :
    Machine.Always (fun pre e => Carried px (h ++ pre) e) (g.stepClient px input).2 := by
  have hafter := hg.stepClient hcore fun _ _ _ => hg.decimal_named hcore hdecimal
  simp only [Gateway.stepClient, hcore] at hafter ⊢
  refine Machine.always_append.mpr ⟨?_, ?_⟩
  · refine Machine.always_of_mem fun e he pre _ => ?_
    cases e with
    | reported s r => exact absurd he reported_not_mem_named
    | _ => trivial
  · refine Machine.always_of_mem fun e he pre hpre => ?_
    obtain ⟨r, rfl, -⟩ := exists_of_mem_reported he
    have hnames : clOrdID (h ++ (named core input ++ pre)) = clOrdID (h ++ (named core input ++
        reported (input.event px).symbolIdx
          (core.step (OEGActor.forward (input.event px))).2)) := by
      rw [clOrdID_reported, ← List.append_assoc]
      refine clOrdID_reports fun e he => ?_
      obtain ⟨r, rfl, -⟩ := exists_of_mem_reported (hpre e he)
      exact ⟨_, r, rfl⟩
    have hsub : ∀ e ∈ h ++ (named core input ++ pre), e ∈ h ++ (named core input ++
        reported (input.event px).symbolIdx
          (core.step (OEGActor.forward (input.event px))).2) := by
      intro e he
      simp only [List.mem_append] at he ⊢
      exact he.imp_right (Or.imp_right (hpre e))
    intro text htext
    rw [hnames] at htext
    have hown := hafter.clOrdIDText px (by simp [he]) htext
    refine ⟨hown, fun s' r' text' hr' htext' hne heq => hne ?_⟩
    rw [hnames] at htext'
    rw [← hafter.clOrdIDText px (hsub _ hr') htext', heq, hown]

/-- The first report of a new order shows whether its ClOrdID was a decimal. -/
lemma AllNumbered.decimal_of_carried (hg : AllNumbered g h) {sess : FIXSession} {msg : TagMap}
    (hcore : g.books.lookup (symbolFromString (getTag msg 55 [])) = some core)
    (hall : Machine.Always (fun pre e => Carried px (h ++ pre) e)
      (g.stepClient px (.newOrderSingle sess msg)).2) :
    CString.toString (strtoull (getTag msg 11 [])) = getTag msg 11 [] := by
  have hafter := (hg.cores _ core hcore).step px (.newOrderSingle sess msg)
  obtain ⟨r, hr, hid⟩ := core.exists_report_newOrder (handleNewOrderSingle px sess msg)
  have hmem : .reported (symbolFromString (getTag msg 55 [])) r ∈ reported
      (symbolFromString (getTag msg 55 [])) (core.step (.newOrder (handleNewOrderSingle px sess
        msg))).2 := List.mem_filterMap.mpr ⟨_, hr, rfl⟩
  obtain ⟨pre, post, hsplit⟩ := List.append_of_mem hmem
  -- the order has its name, and before this report there are only reports
  have hname : ∀ k : List ClientEvent, (∀ e ∈ k, ∃ s r, e = .reported s r) →
      clOrdID (h ++ (named core (.newOrderSingle sess msg) ++ k))
        (symbolFromString (getTag msg 55 [])) r.orderId = some (getTag msg 11 []) := by
    intro k hk
    rw [← List.append_assoc, clOrdID_reports hk, clOrdID_append, hid]
    simp [named, knownAfter]
  have hstep : (g.stepClient px (.newOrderSingle sess msg)).2
      = (named core (.newOrderSingle sess msg) ++ pre) ++
        .reported (symbolFromString (getTag msg 55 [])) r :: post := by
    have hevent : g.books.lookup ((ClientRequest.newOrderSingle sess msg).event px).symbolIdx
        = some core := hcore
    simp only [Gateway.stepClient, hevent]
    rw [List.append_assoc, ← hsplit]
    rfl
  have hpre : ∀ e ∈ pre, ∃ s r, e = .reported s r := by
    intro e he
    obtain ⟨r', rfl, -⟩ := exists_of_mem_reported (hsplit ▸ List.mem_append_left _ he)
    exact ⟨_, r', rfl⟩
  have hcarried := (hall _ _ post hstep _ (hname pre hpre)).1
  rw [clOrdIDText_eq] at hcarried
  have hnumber : r.clOrdId = strtoull (getTag msg 11 []) := hafter.clOrdId ?_ ?_
  · rw [← hnumber, hcarried]
  · exact List.mem_append_right _ (List.mem_append_right _ hmem)
  · refine hname _ fun e he => ?_
    obtain ⟨r', rfl, -⟩ := exists_of_mem_reported he
    exact ⟨_, r', rfl⟩

/-- In every run, reports carry the ClOrdIDs of their orders, and different ones on different
orders, exactly if all ClOrdIDs are decimals in range. -/
theorem run_carried_iff (symbols : List ℕ) (hasClearingHouse : Bool) (px : PriceText)
    (inputs : List ClientRequest) :
    Machine.Always (Carried px)
        (Machine.run (stepClient px) (mapped symbols hasClearingHouse) inputs).2 ↔
      Machine.Along (stepClient px) HasDecimal (mapped symbols hasClearingHouse) inputs := by
  rw [← Machine.along_recording (h := [])]
  refine Machine.always_iff_along (I := fun s => AllNumbered s.1 s.2) ?_ ?_
    (allNumbered_mapped symbols hasClearingHouse)
  · intro g h input hdecimal hg
    cases hcore : g.books.lookup (input.event px).symbolIdx with
    | none => simpa [stepClient, hcore] using hg
    | some core => exact hg.stepClient hcore fun _ _ _ => hg.decimal_named hcore hdecimal
  · intro g h input hg _
    cases hcore : g.books.lookup (input.event px).symbolIdx with
    | none =>
      refine iff_of_true (by simp [stepClient, hcore]) ?_
      cases input with
      | newOrderSingle sess msg => exact fun hmapped => absurd hcore hmapped
      | request event => trivial
    | some core =>
      constructor
      · intro hall
        cases input with
        | newOrderSingle sess msg =>
          exact fun _ => CString.toString_strtoull_eq_iff.mp (hg.decimal_of_carried hcore hall)
        | request event => trivial
      · exact hg.carried hcore

/-- The first order of a client, under the name `ORD-7`, is reported as `0`. -/
theorem not_carried_letters : ¬∀ (symbols : List ℕ) (hasClearingHouse : Bool) (px : PriceText)
    (inputs : List ClientRequest), Machine.Always (Carried px)
      (Machine.run (stepClient px) (mapped symbols hasClearingHouse) inputs).2 := by
  intro h
  have hreport := h [1] false ⟨fun _ => 10, fun _ => []⟩
    [.newOrderSingle { sessionId := 100 } [⟨35, "D".toList⟩, ⟨11, "ORD-7".toList⟩,
      ⟨55, "AAPL".toList⟩, ⟨54, "1".toList⟩, ⟨38, "5".toList⟩].toFinmap]
    [.entered 1 1 "ORD-7".toList] (.reported 1 ⟨⟨1, 0, .new, 0, 5, 0, 0, 0⟩, 100⟩) []
    (by decide +kernel) "ORD-7".toList (by decide)
  exact absurd hreport.1 (by decide)

end Gateway

end EuNEx
