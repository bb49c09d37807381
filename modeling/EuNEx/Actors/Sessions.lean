import EuNEx.Actors.MECore
import EuNEx.Book.History

/-!
# Which session hears of an order

A report goes to the session of the event that caused it. It reaches the session that owns the
order exactly if no event reaches into the orders of another session.
-/

namespace EuNEx

namespace Book

variable {b : Book} {hist log log' : List BookEvent} {sessionId : ℕ} {own : ℕ → Prop}

/-- The events of one session: reports on its own orders, and entries of its own. -/
structure Within (sessionId : ℕ) (own : ℕ → Prop) (log : List BookEvent) : Prop where
  reports : ∀ r, .exec r ∈ log → own r.orderId
  entries : ∀ o, .entry o ∈ log → o.sessionId = sessionId

lemma within_append : Within sessionId own (log ++ log')
    ↔ Within sessionId own log ∧ Within sessionId own log' := by
  constructor
  · intro h
    exact ⟨⟨fun r hr => h.reports r (by simp [hr]), fun o ho => h.entries o (by simp [ho])⟩,
      ⟨fun r hr => h.reports r (by simp [hr]), fun o ho => h.entries o (by simp [ho])⟩⟩
  · rintro ⟨h, h'⟩
    constructor
    · intro r hr
      rcases List.mem_append.mp hr with hr | hr
      · exact h.reports r hr
      · exact h'.reports r hr
    · intro o ho
      rcases List.mem_append.mp ho with ho | ho
      · exact h.entries o ho
      · exact h'.entries o ho

/-- Entering an order stays within a session exactly if the order is of the session and is filled
from orders of the session only. -/
lemma within_newOrder (hOK : ∀ s, (b.levels s).OK) (order : Order) (hown : own b.nextOrderId) :
    Within sessionId own (b.newOrder order).log ↔
      order.sessionId = sessionId ∧ ∀ o ∈ b.filledBy order, own o.orderId := by
  obtain ⟨fills, last, hlog, hfills, hlast⟩ := newOrder_log hOK order
  constructor
  · intro h
    refine ⟨h.entries (b.entered order) (by simp [hlog]), fun o ho => ?_⟩
    obtain ⟨r, hr, hid⟩ := hfills.told ho
    have hreport := h.reports r (by simp [hlog, hr])
    rwa [hid] at hreport
  · rintro ⟨hsession, hfilled⟩
    constructor
    · intro r hr
      rw [hlog] at hr
      simp only [List.mem_cons, reduceCtorEq, List.mem_append, false_or] at hr
      rcases hr with hr | hr
      · obtain ⟨⟨o, ho, hid⟩, -⟩ := hfills.report hr
        rw [← hid]
        exact hfilled o ho
      · rcases hlast _ hr with ⟨o, ho, -⟩ | ⟨r', heq, hid, -⟩
        · cases ho
        · cases heq
          rw [hid]
          exact hown
    · intro o ho
      rw [entry_newOrder hOK ho]
      exact hsession

/-- Every converted stop is of the session, and is filled from orders of the session only. -/
def OwnStops (sessionId : ℕ) (own : ℕ → Prop) : Book → List Order → Prop
  | _, [] => True
  | b, stop :: stops => stop.sessionId = sessionId ∧
      (∀ o ∈ b.filledBy (converted stop), own o.orderId) ∧
      OwnStops sessionId own (b.newOrder (converted stop)).book stops

lemma within_enterConverted {out : Outcome} (h : out.Sound hist) (sessionId : ℕ)
    (hown : ∀ id, out.book.nextOrderId ≤ id → own id) (stops : List Order) :
    Within sessionId own (enterConverted out stops).log ↔
      Within sessionId own out.log ∧ OwnStops sessionId own out.book stops := by
  induction stops generalizing out with
  | nil => simp [enterConverted, OwnStops]
  | cons stop stops ih =>
    have hnext : (convert out stop).book.nextOrderId = out.book.nextOrderId + 1 :=
      (newOrder_frame h.shape.levels).1
    rw [enterConverted_cons, ih (h.convert stop) fun id hid => hown id (by omega), convert,
      within_append, within_newOrder h.shape.levels _ (hown _ le_rfl)]
    simp only [OwnStops, converted, and_assoc]

/-- Every order that entered is told of. -/
def Told (log : List BookEvent) : Prop :=
  ∀ o, .entry o ∈ log → ∃ r, .exec r ∈ log ∧ r.orderId = o.orderId

lemma Told.append (h : Told log) (h' : Told log') : Told (log ++ log') := by
  intro o ho
  rcases List.mem_append.mp ho with ho | ho
  · obtain ⟨r, hr, hid⟩ := h o ho
    exact ⟨r, by simp [hr], hid⟩
  · obtain ⟨r, hr, hid⟩ := h' o ho
    exact ⟨r, by simp [hr], hid⟩

lemma told_newOrder (hOK : ∀ s, (b.levels s).OK) (order : Order) :
    Told (b.newOrder order).log := by
  intro o ho
  rw [entry_newOrder hOK ho]
  exact newOrder_told b order

lemma told_enterConverted {out : Outcome} {stops : List Order} (h : out.Sound hist)
    (hold : Told out.log) : Told (enterConverted out stops).log := by
  induction stops generalizing out with
  | nil => exact hold
  | cons stop stops ih =>
    exact ih (h.convert stop) (hold.append (told_newOrder h.shape.levels _))

end Book

namespace MECoreActor

open Book

variable {a : MECoreActor} {h : List MECoreOutput}

/-- Every report pushed so far carries the session under which its order entered. -/
def Addressed (h : List MECoreOutput) : Prop :=
  ∀ event, .execReport event ∈ h → .entered event.orderId event.sessionId ∈ h

/-- Of the orders that entered before the event, those of its session; and all that enter now. -/
def Own (a : MECoreActor) (h : List MECoreOutput) (sessionId id : ℕ) : Prop :=
  .entered id sessionId ∈ h ∨ a.book.nextOrderId ≤ id

/-- The event stays within its session. A new order, and every stop that it triggers, is filled
from orders of the session only, and the stops are of the session as well. A cancel names an order
of the session, or none. -/
def OwnSession : MECoreActor × List MECoreOutput → MECoreEvent → Prop
  | (a, h), .newOrder event =>
    let b := (a.book.newOrder event.order).book
    (∀ o ∈ a.book.filledBy event.order, a.Own h event.sessionId o.orderId) ∧
      (0 < b.stopOrderCount ∧ b.lastTradePrice ≠ 0 →
        OwnStops event.sessionId (a.Own h event.sessionId)
          (b.withdrawTriggered b.lastTradePrice).book (b.triggeredStops b.lastTradePrice))
  | (a, h), .cancelOrder event =>
    (∃ o ∈ a.book.live, o.orderId = event.orderId) → .entered event.orderId event.sessionId ∈ h
  | _, .modifyOrder _ => True

/-- What entering an order and triggering stops does stays within the session exactly if the event
does. -/
lemma within_enterOrder {hist : List BookEvent} (hb : a.book.Sound hist) (event : NewOrderEvent) :
    Within event.sessionId (a.Own h event.sessionId) (a.enterOrder event.order).log ↔
      OwnSession (a, h) (.newOrder event) := by
  have hOK := hb.shape.levels
  have hnew : (a.book.newOrder event.order).toOutcome.Sound hist := hb.newOrder event.order
  have hnext : (a.book.newOrder event.order).book.nextOrderId = a.book.nextOrderId + 1 :=
    (newOrder_frame hOK).1
  have hentered : Within event.sessionId (a.Own h event.sessionId) (a.book.newOrder event.order).log
      ↔ ∀ o ∈ a.book.filledBy event.order, a.Own h event.sessionId o.orderId := by
    rw [within_newOrder hOK _ (Or.inr le_rfl)]
    simp [NewOrderEvent.order]
  rcases a.enterOrder_cases event.order with ⟨hfires, heq⟩ | ⟨hquiet, heq⟩
  · have hwithdraw := Book.Sound.withdrawTriggered hnew
      (a.book.newOrder event.order).book.lastTradePrice
    have hexits : Within event.sessionId (a.Own h event.sessionId)
        ((a.book.newOrder event.order).book.withdrawTriggered
          (a.book.newOrder event.order).book.lastTradePrice).log := by
      constructor <;> simp [withdrawTriggered]
    have hown : ∀ id, (a.book.newOrder event.order).book.nextOrderId ≤ id →
        a.Own h event.sessionId id := fun id hid => Or.inr (by omega)
    rw [heq, within_append, hentered, triggerStopOrders_eq, within_enterConverted hwithdraw _ hown]
    simp only [OwnSession, hexits, hfires, true_and, ne_eq, not_false_eq_true, and_self,
      forall_const]
  · rw [heq, hentered]
    simp only [OwnSession, hquiet, false_implies, and_true]

/-- The orders of an event have new ids. -/
lemma entry_enterOrder {hist : List BookEvent} (hb : a.book.Sound hist) {order o : Order}
    (ho : .entry o ∈ (a.enterOrder order).log) : a.book.nextOrderId ≤ o.orderId := by
  have hids : entryIds hist = List.range' 1 (a.book.nextOrderId - 1) := hb.laws.ids.entryIds
  have hnodup : (entryIds (hist ++ (a.enterOrder order).log)).Nodup :=
    (sound_enterOrder hb order).laws.ids.entryIds_nodup
  rw [entryIds_append] at hnodup
  by_contra hlt
  have hpos := ((sound_enterOrder hb order).laws.ids.mem_entryIds_iff.mp
    (mem_entryIds.mpr ⟨o, List.mem_append_right _ ho, rfl⟩)).1
  have hold : o.orderId ∈ entryIds hist := by
    rw [hids, List.mem_range'_1]
    omega
  exact List.disjoint_of_nodup_append hnodup hold (mem_entryIds.mpr ⟨o, ho, rfl⟩)

lemma told_enterOrder {hist : List BookEvent} (hb : a.book.Sound hist) (order : Order) :
    Told (a.enterOrder order).log := by
  have hnew : (a.book.newOrder order).toOutcome.Sound hist := hb.newOrder order
  have htold := told_newOrder hb.shape.levels order
  rcases a.enterOrder_cases order with ⟨-, heq⟩ | ⟨-, heq⟩ <;> rw [heq]
  · refine htold.append (told_enterConverted (Book.Sound.withdrawTriggered hnew _) ?_)
    simp [Told]
  · exact htold

/-- The reports of a new order event are addressed to the owners exactly if the event stays within
its session. -/
lemma addressed_newOrder_iff (hs : a.Sound h) (ha : Addressed h) (event : NewOrderEvent) :
    Addressed (h ++ (a.step (.newOrder event)).2) ↔ OwnSession (a, h) (.newOrder event) := by
  obtain ⟨hist, hb, -, hids⟩ := hs
  have hlaws := (sound_enterOrder hb event.order).laws.ids
  have hold : ∀ id s, .entered id s ∈ h → id < a.book.nextOrderId := by
    intro id s hmem
    have hid : id ∈ entryIds hist := hids ▸ mem_enteredIds.mpr ⟨s, hmem⟩
    exact (hb.laws.ids.mem_entryIds_iff.mp hid).2
  have hentered : ∀ id s, .entered id s ∈ (a.step (.newOrder event)).2 ↔
      ∃ o, .entry o ∈ (a.enterOrder event.order).log ∧ o.orderId = id ∧ o.sessionId = s := by
    intro id s
    rw [outputs_newOrder, List.mem_append, entered_mem_callback]
    simp
  have hreport : ∀ ev, .execReport ev ∈ (a.step (.newOrder event)).2 ↔
      .exec ev.toExecutionReport ∈ (a.enterOrder event.order).log ∧
        ev.sessionId = event.sessionId := by
    intro ev
    rw [outputs_newOrder, List.mem_append, execReport_mem_callback]
    simp
  rw [← within_enterOrder hb]
  constructor
  · intro hall
    have hsent : ∀ r, .exec r ∈ (a.enterOrder event.order).log →
        .entered r.orderId event.sessionId ∈ h ∨ ∃ o, .entry o ∈ (a.enterOrder event.order).log ∧
          o.orderId = r.orderId ∧ o.sessionId = event.sessionId := by
      intro r hr
      have hmem := hall ⟨r, event.sessionId⟩ (List.mem_append_right _ ((hreport _).mpr ⟨hr, rfl⟩))
      rwa [List.mem_append, hentered] at hmem
    constructor
    · intro r hr
      rcases hsent r hr with hmem | ⟨o, ho, hid, -⟩
      · exact Or.inl hmem
      · exact Or.inr (hid ▸ entry_enterOrder hb ho)
    · intro o ho
      obtain ⟨r, hr, hid⟩ := told_enterOrder hb event.order o ho
      rcases hsent r hr with hmem | ⟨o', ho', hid', hsession⟩
      · have hlt := hold _ _ hmem
        have hle := entry_enterOrder hb ho
        omega
      · have heq : o = o' := entry_unique hlaws.entryIds_nodup (List.mem_append_right _ ho)
          (List.mem_append_right _ ho') (hid.symm.trans hid'.symm)
        rw [heq, hsession]
  · intro hw ev hev
    rw [List.mem_append]
    rcases List.mem_append.mp hev with hev | hev
    · exact Or.inl (ha ev hev)
    · obtain ⟨hr, hsession⟩ := (hreport ev).mp hev
      rw [hsession]
      rcases hw.reports _ hr with hmem | hle
      · exact Or.inl hmem
      · -- a new id: the order entered with this event
        have hknown := hlaws.known (.exec ev.toExecutionReport) (List.mem_append_right _ hr) _ rfl
        obtain ⟨o, ho, hid⟩ := mem_entryIds.mp hknown
        rcases List.mem_append.mp ho with ho | ho
        · have hlt := (hb.laws.ids.mem_entryIds_iff.mp (mem_entryIds.mpr ⟨o, ho, hid⟩)).2
          simp only [ledger] at hlt
          omega
        · exact Or.inr ((hentered _ _).mpr ⟨o, ho, hid, hw.entries o ho⟩)

lemma addressed_cancelOrder_iff (hs : a.Sound h) (ha : Addressed h) (event : CancelOrderEvent) :
    Addressed (h ++ (a.step (.cancelOrder event)).2) ↔ OwnSession (a, h) (.cancelOrder event) := by
  obtain ⟨hist, hb, -, -⟩ := hs
  cases hc : a.book.cancelOrder event.orderId with
  | none =>
    have hnone := (cancelOrder_eq_none_iff hb.shape).mp hc
    rw [step_cancelOrder_none hc]
    refine iff_of_true (fun ev hev => ?_) fun ⟨o, ho, hid⟩ => absurd hid (hnone o ho)
    simp only [List.mem_append, List.mem_singleton, reduceCtorEq, or_false] at hev ⊢
    exact ha ev hev
  | some c =>
    have hrem := removes_of_cancelOrder hb.shape hc
    have hid : c.report.orderId = event.orderId := by
      cases hrem with
      | stop o stops hid hmem hperm hsub => rfl
      | resting s o levels hid hperm hOK => rfl
    rw [step_cancelOrder_some hc]
    constructor
    · rintro hall -
      have hmem := hall ⟨c.report, event.sessionId⟩ (by simp)
      simpa [hid] using hmem
    · intro hown ev hev
      simp only [List.mem_append, List.mem_cons, MECoreOutput.execReport.injEq, reduceCtorEq,
        List.not_mem_nil, or_false] at hev ⊢
      rcases hev with hev | rfl
      · exact ha ev hev
      · have hmem := hown ⟨c.removed, hrem.mem_live, hrem.orderId⟩
        rwa [hid]

lemma addressed_modifyOrder (ha : Addressed h) (event : ModifyOrderEvent) :
    Addressed (h ++ (a.step (.modifyOrder event)).2) := by
  intro ev hev
  cases hc : a.book.cancelOrder event.orderId with
  | none =>
    rw [step_modifyOrder_none hc] at hev ⊢
    simp only [List.mem_append, List.mem_singleton, reduceCtorEq, or_false] at hev ⊢
    exact ha ev hev
  | some c =>
    obtain ⟨r, -, hstep⟩ := step_modifyOrder_some hc
    rw [hstep] at hev ⊢
    simp only [List.mem_append, List.mem_cons, MECoreOutput.execReport.injEq, reduceCtorEq,
      MECoreOutput.entered.injEq, List.not_mem_nil, or_false, false_or] at hev ⊢
    rcases hev with hev | rfl
    · exact Or.inl (ha ev hev)
    · exact Or.inr ⟨rfl, rfl⟩

/-- In every run, all reports are addressed to the owners of their orders throughout exactly if
every event stays within its session. -/
theorem run_addressed_iff (symbolIdx : ℕ) (hasClearingHouse : Bool) (events : List MECoreEvent) :
    Machine.Throughout (Machine.recording step) (fun s => Addressed s.2)
        (new symbolIdx hasClearingHouse, []) events ↔
      Machine.Along (Machine.recording step) OwnSession (new symbolIdx hasClearingHouse, [])
        events := by
  refine Machine.throughout_iff_along (I := fun s => s.1.Sound s.2)
    (fun s event hs => hs.step event) ?_ (Sound.new _ _) (by simp [Addressed])
  rintro ⟨a, h⟩ event hs ha
  cases event with
  | newOrder event => exact addressed_newOrder_iff hs ha event
  | cancelOrder event => exact addressed_cancelOrder_iff hs ha event
  | modifyOrder event => exact iff_of_true (addressed_modifyOrder ha event) trivial

/-- The report of the fill of a resting order goes to the session of the order that took it. -/
theorem not_addressed_fill : ¬∀ (symbolIdx : ℕ) (hasClearingHouse : Bool)
    (events : List MECoreEvent), Addressed (run symbolIdx hasClearingHouse events).2 := by
  intro h
  have hmem := h 1 false [.newOrder ⟨1, 1, .sell, .limit, .day, 10, 5, 1, 0⟩,
    .newOrder ⟨2, 1, .buy, .limit, .day, 10, 5, 2, 0⟩] ⟨⟨1, 1, .filled, 5, 0, 10, 5, 1⟩, 2⟩
    (by decide)
  exact absurd hmem (by decide)

end MECoreActor

end EuNEx
