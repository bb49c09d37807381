import EuNEx.Book.Flat
import EuNEx.Book.Positive

/-!
# What the last report on an order says

In continuous trading, without stops and amendments, whatever happens to an order is followed by a
report on it, and a report after which the order stays open says how much of it is left. So when an
operation has ended, the last report on an order tells all there is to know of it.
-/

namespace EuNEx

def BookEvent.exec? : BookEvent → Option ExecutionReport
  | .exec r => some r
  | _ => none

/-- The execution reports in a log. -/
def execs (log : List BookEvent) : List ExecutionReport := log.filterMap BookEvent.exec?

/-- Something happens to the order. -/
def BookEvent.Stirs (id : ℕ) : BookEvent → Prop
  | .entry o | .exit o => o.orderId = id
  | .trade t => t.buyOrderId = id ∨ t.sellOrderId = id
  | .exec _ => False

/-- The report is on the order, and closes it if what has happened is that it has left. -/
def ExecutionReport.Answers (r : ExecutionReport) (id : ℕ) : BookEvent → Prop
  | .exit _ => r.orderId = id ∧ r.status.isFinal = true
  | _ => r.orderId = id

/-- All that happens to the order is answered by a later report. -/
def Answered (id : ℕ) (log : List BookEvent) : Prop :=
  ∀ pre ev post, log = pre ++ ev :: post → ev.Stirs id → ∃ r, .exec r ∈ post ∧ r.Answers id ev

/-- The status goes with the quantities. -/
def ExecutionReport.Fits (r : ExecutionReport) : Prop :=
  match r.status with
  | .new => 0 < r.remainingQty ∧ r.filledQty = 0
  | .partiallyFilled => 0 < r.remainingQty ∧ 0 < r.filledQty
  | .filled => r.remainingQty = 0
  | .cancelled | .rejected => True

/-- The quantities of the report are within a bound. -/
def ExecutionReport.Within (r : ExecutionReport) (bound : ℕ) : Prop :=
  r.remainingQty ≤ bound ∧ r.lastQty ≤ bound

/-- Each order has been told all that has happened to it. -/
structure Informed (log : List BookEvent) : Prop where
  told : ∀ id, Answered id log
  fits : ∀ r ∈ execs log, r.Fits

/-- The last report on an order. -/
def lastReport (reports : List ExecutionReport) (id : ℕ) : Option ExecutionReport :=
  (reports.filter fun r => r.orderId = id).getLast?

section

variable {log log' : List BookEvent} {id : ℕ} {r : ExecutionReport} {ev : BookEvent}

@[simp] lemma execs_append : execs (log ++ log') = execs log ++ execs log' :=
  List.filterMap_append ..

lemma mem_execs : r ∈ execs log ↔ .exec r ∈ log := by
  simp only [execs, List.mem_filterMap]
  constructor
  · rintro ⟨ev, hev, heq⟩
    cases ev with
    | exec r' =>
      cases heq
      exact hev
    | _ => cases heq
  · exact fun hr => ⟨.exec r, hr, rfl⟩

lemma told_of_not_stirs (h : ∀ ev ∈ log, ¬ev.Stirs id) : Answered id log := by
  rintro pre ev post rfl hstirs
  exact absurd hstirs (h ev (by simp))

lemma Answered.append (h : Answered id log) (h' : Answered id log') :
    Answered id (log ++ log') := by
  intro pre ev post heq hstirs
  rcases List.append_eq_append_iff.mp heq with ⟨mid, rfl, hlog'⟩ | ⟨mid, hlog, hpost⟩
  · exact h' mid ev post hlog' hstirs
  · cases mid with
    | nil =>
      rw [List.nil_append] at hpost
      exact h' [] ev post hpost.symm hstirs
    | cons ev' mid =>
      cases hpost
      obtain ⟨r, hr, hanswers⟩ := h pre ev mid hlog hstirs
      exact ⟨r, by simp [hr], hanswers⟩

/-- A report answers for all that has happened before it. -/
lemma told_report (hid : r.orderId = id)
    (hfinal : ∀ o, .exit o ∈ log → o.orderId = id → r.status.isFinal = true) :
    Answered id (log ++ [.exec r]) := by
  intro pre ev post heq hstirs
  rcases List.append_eq_append_iff.mp heq with ⟨mid, rfl, hlast⟩ | ⟨mid, rfl, hlast⟩
  · rcases List.singleton_eq_append_iff.mp hlast with ⟨-, hev⟩ | ⟨-, hev⟩
    · cases hev
      exact hstirs.elim
    · cases hev
  · cases mid with
    | nil =>
      cases hlast
      exact hstirs.elim
    | cons ev' mid =>
      cases hlast
      refine ⟨r, by simp, ?_⟩
      cases ev with
      | exit o => exact ⟨hid, hfinal o (by simp) hstirs⟩
      | _ => exact hid

lemma ExecutionReport.Answers.orderId (h : r.Answers id ev) : r.orderId = id := by
  cases ev with
  | exit o => exact h.1
  | _ => exact h

lemma traded_of_not_stirs (h : ∀ ev ∈ log, ¬ev.Stirs id) : traded log id = 0 :=
  traded_eq_zero fun _ ht => h _ ht

lemma exited_of_not_stirs (h : ∀ ev ∈ log, ¬ev.Stirs id) : exited log id = 0 :=
  exited_eq_zero fun _ ho => h _ ho

lemma exists_exit (h : 0 < exited log id) : ∃ o, .exit o ∈ log ∧ o.orderId = id := by
  by_contra hnone
  exact h.ne' (exited_eq_zero fun o ho hid => hnone ⟨o, ho, hid⟩)

lemma exists_lastReport (hr : .exec r ∈ log) (hid : r.orderId = id) :
    ∃ r', lastReport (execs log) id = some r' := by
  rw [← Option.isSome_iff_exists, lastReport, List.getLast?_isSome]
  exact List.ne_nil_of_mem (List.mem_filter.mpr ⟨mem_execs.mpr hr, by simpa using hid⟩)

/-- Where the last report on an order stands. -/
lemma split_lastReport (h : lastReport (execs log) id = some r) :
    ∃ pre post, log = pre ++ .exec r :: post ∧ r.orderId = id ∧
      ∀ r', .exec r' ∈ post → r'.orderId ≠ id := by
  obtain ⟨others, hothers⟩ := List.getLast?_eq_some_iff.mp h
  obtain ⟨earlier, rest, hexecs, -, hrest⟩ := List.filter_eq_append_iff.mp hothers
  obtain ⟨skipped, later, rfl, -, hid, hlater⟩ := List.filter_eq_cons_iff.mp hrest
  rw [← List.append_assoc] at hexecs
  obtain ⟨pre, rest, rfl, -, hrest⟩ := List.filterMap_eq_append_iff.mp hexecs
  obtain ⟨mid, ev, post, rfl, hmid, hev, hpost⟩ := List.filterMap_eq_cons_iff.mp hrest
  obtain rfl : ev = .exec r := by
    cases ev with
    | exec r' =>
      cases hev
      rfl
    | _ => cases hev
  refine ⟨pre ++ mid, post, by simp, by simpa using hid, fun r' hr' heq => ?_⟩
  have hmem : r' ∈ later := hpost ▸ mem_execs.mpr hr'
  simpa [heq] using List.filter_eq_nil_iff.mp hlater r' hmem

namespace Informed

lemma nil : Informed [] := ⟨fun _ => told_of_not_stirs (by simp), by simp [execs]⟩

lemma append (h : Informed log) (h' : Informed log') : Informed (log ++ log') where
  told id := (h.told id).append (h'.told id)
  fits r hr := by
    rw [execs_append, List.mem_append] at hr
    exact hr.elim (h.fits r) (h'.fits r)

end Informed

end

namespace Book

variable {b : Book} {hist : List BookEvent} {order : Order}

/-! ### New orders -/

/-- While the incoming order is filled, all others are told. -/
structure Filling (id : ℕ) (m : Matching) (orders : List Order) : Prop where
  incoming : m.incoming.orderId = id
  told : ∀ id' ≠ id, Answered id' m.log
  fits : ∀ r ∈ execs m.log, r.Fits
  stays : ∀ o, .exit o ∉ m.log
  bound : ∀ o ∈ orders, 0 < o.remainingQty ∧ o.remainingQty ≤ o.quantity

section

variable {id : ℕ} {m m' : Matching} {done todo : List Order} {o : Order} {left : Option Order}
  {loop : FillLoop} {p : ℤ} {traded : ℕ}

lemma Filling.turn (h : Filling id m (done ++ o :: todo)) (hparty : loop.Parties)
    (hrep : loop.reportsIncoming = false) (ht : loop.Turn p m m' o left traded) :
    Filling id m' (done ++ (left.toList ++ todo)) := by
  have hlog := ht.log
  rw [hrep, if_neg Bool.false_ne_true, List.append_nil] at hlog
  obtain ⟨hpos, hle⟩ := h.bound o (by simp)
  have htraded : 0 < traded ∧ traded ≤ o.remainingQty := by
    rw [ht.qty_eq]
    exact ⟨lt_min (Nat.pos_of_ne_zero ht.open') hpos, min_le_right _ _⟩
  constructor
  case incoming =>
    rw [ht.incoming]
    exact h.incoming
  case told =>
    intro id' hne
    rw [hlog]
    apply (h.told id' hne).append
    by_cases hid : o.orderId = id'
    · exact @told_report [.trade _] _ _ hid (by simp)
    · apply told_of_not_stirs
      intro ev hev hstirs
      simp only [List.mem_cons, List.not_mem_nil, or_false] at hev
      rcases hev with rfl | rfl
      · rcases hparty m.book m.incoming o p traded with ⟨hbuy, hsell⟩ | ⟨hbuy, hsell⟩ <;>
          simp only [BookEvent.Stirs, hbuy, hsell, h.incoming] at hstirs <;> tauto
      · exact hstirs
  case fits =>
    intro r hr
    rw [hlog, execs_append, List.mem_append] at hr
    rcases hr with hr | hr
    · exact h.fits r hr
    · obtain rfl := List.mem_singleton.mp hr
      by_cases hz : o.remainingQty - traded = 0
      · simp [ExecutionReport.Fits, Order.fillReport, hz]
      · simp only [ExecutionReport.Fits, Order.fillReport, hz, if_false]
        omega
  case stays =>
    intro o' ho'
    rw [hlog, List.mem_append] at ho'
    rcases ho' with ho' | ho'
    · exact h.stays o' ho'
    · simp at ho'
  case bound =>
    intro o' ho'
    simp only [List.mem_append, Option.mem_toList] at ho'
    rcases ho' with ho' | rfl | ho'
    · exact h.bound o' (by simp [ho'])
    · have hquantity : o'.quantity = o.quantity := by rw [ht.shrunk.eq]
      exact ⟨ht.pos, hquantity ▸ ht.shrunk.le.trans hle⟩
    · exact h.bound o' (by simp [ho'])

end

/-- All resting orders have something left, and not more than they came with. -/
lemma bound_resting (h : b.Sound hist) (hrest : AllRest somethingOpen b) {s : Side} {o : Order}
    (ho : o ∈ b.resting s) : 0 < o.remainingQty ∧ o.remainingQty ≤ o.quantity :=
  ⟨hrest s o ho, h.laws.ids.bound o (mem_live.mpr (.inl ⟨s, ho⟩))⟩

lemma fillLoop_parties (s : Side) : s.fillLoop.Parties ∧ s.fillLoop.reportsIncoming = false := by
  cases s with
  | buy => exact ⟨fun _ _ _ _ _ => .inl ⟨rfl, rfl⟩, rfl⟩
  | sell => exact ⟨fun _ _ _ _ _ => .inr ⟨rfl, rfl⟩, rfl⟩

lemma filling_enter (h : b.Sound hist) (hrest : AllRest somethingOpen b) (order : Order) :
    Filling b.nextOrderId (b.enter order) (b.resting order.side.opposite) where
  incoming := rfl
  told id' hne := told_of_not_stirs fun ev hev => by
    obtain rfl := List.mem_singleton.mp hev
    exact fun hid => hne hid.symm
  fits r hr := by cases hr
  stays o ho := by simp [enter] at ho
  bound o ho := bound_resting h hrest ho

lemma filling_execute (h : b.Sound hist) (hrest : AllRest somethingOpen b) (order : Order) :
    Filling b.nextOrderId (b.enter order).execute [] := by
  obtain ⟨hparty, hrep⟩ := fillLoop_parties order.side
  obtain ⟨hlog, hincoming, -⟩ := enter_flat h.shape.levels order
  have hfilling := Sweep.sweep_invariant (order.side.fillLoop.next order.side.opposite)
    (P := Filling b.nextOrderId)
    (fun m done o todo m' left hfilling hv => by
      rw [FillLoop.next] at hv
      split at hv
      · exact hfilling.turn hparty hrep (FillLoop.turn_of_visit hv)
      · cases hv) (filling_enter h hrest order)
  constructor
  case incoming => exact hincoming ▸ hfilling.incoming
  case told => exact hlog ▸ hfilling.told
  case fits => exact hlog ▸ hfilling.fits
  case stays => exact hlog ▸ hfilling.stays
  case bound => simp

end Book

/-- The last events of an order that has been matched. -/
lemma Matching.settle_tail (m : Matching) (hle : m.incoming.remainingQty ≤ m.incoming.quantity) :
    ∃ r : ExecutionReport, r.orderId = m.incoming.orderId ∧ r.Fits ∧
      (m.settle.log = m.log ++ [.exec r] ∨
        m.settle.log = m.log ++ [.exit m.incoming, .exec r] ∧ r.status.isFinal = true) := by
  rw [settle]
  simp only
  split
  · rename_i hpos
    split
    · refine ⟨_, rfl, ?_, .inr ⟨rfl, rfl⟩⟩
      trivial
    · refine ⟨_, rfl, ?_, .inl rfl⟩
      by_cases hlt : m.incoming.remainingQty < m.incoming.quantity
      · simp only [ExecutionReport.Fits, Order.report, if_pos hlt]
        omega
      · simp only [ExecutionReport.Fits, Order.report, if_neg hlt]
        omega
  · refine ⟨_, rfl, ?_, .inl rfl⟩
    rfl

/-- The status of a live order, as its quantities say. -/
def Order.standing (o : Order) : OrderStatus :=
  if o.remainingQty < o.quantity then .partiallyFilled else .new

namespace Book

variable {b : Book} {hist : List BookEvent} {order : Order}

lemma informed_settle (h : b.Sound hist) (hrest : AllRest somethingOpen b) (order : Order) :
    Informed (b.enter order).execute.settle.log := by
  have hfilling := filling_execute h hrest order
  have hshrunk := (b.enter order).execute_shrunk
  have hle : (b.enter order).execute.incoming.remainingQty
      ≤ (b.enter order).execute.incoming.quantity := by
    have hquantity : (b.enter order).execute.incoming.quantity = order.quantity := by
      rw [hshrunk.eq]
      rfl
    rw [hquantity]
    exact hshrunk.le
  obtain ⟨r, hid, hfits, htail⟩ := (b.enter order).execute.settle_tail hle
  rw [hfilling.incoming] at hid
  have hall : ∀ r' ∈ execs (b.enter order).execute.log ++ [r], r'.Fits :=
    List.forall_mem_append.mpr ⟨hfilling.fits, List.forall_mem_singleton.mpr hfits⟩
  rcases htail with htail | ⟨htail, hfinal⟩
  · rw [htail]
    constructor
    · intro id
      by_cases hown : id = b.nextOrderId
      · exact told_report (hid.trans hown.symm) fun o ho _ => absurd ho (hfilling.stays o)
      · exact (hfilling.told id hown).append (told_of_not_stirs (by simp [BookEvent.Stirs]))
    · rw [execs_append]
      exact hall
  · rw [htail]
    constructor
    · intro id
      by_cases hown : id = b.nextOrderId
      · rw [← List.singleton_append, ← List.append_assoc]
        exact told_report (hid.trans hown.symm) fun _ _ _ => hfinal
      · refine (hfilling.told id hown).append (told_of_not_stirs fun ev hev => ?_)
        simp only [List.mem_cons, List.not_mem_nil, or_false] at hev
        rcases hev with rfl | rfl
        · rw [BookEvent.Stirs, hfilling.incoming]
          exact Ne.symm hown
        · exact False.elim
    · rw [execs_append]
      exact hall

/-- In continuous trading, everyone is told of what a new order does. -/
theorem informed_newOrder (h : b.Sound hist) (hphase : b.phase = .cts)
    (hrest : AllRest somethingOpen b) (hexec : order.ordType.isStop = false) :
    Informed (b.newOrder order).log := by
  rw [newOrder_cts hphase hexec]
  split
  · exact informed_settle h hrest order
  · constructor
    · intro id
      by_cases hown : id = b.nextOrderId
      · exact @told_report [.entry _, .exit _] _ _ hown.symm fun _ _ _ => rfl
      · refine told_of_not_stirs fun ev hev => ?_
        simp only [enter, Matching.reject, List.cons_append, List.nil_append, List.mem_cons,
          List.not_mem_nil, or_false] at hev
        rcases hev with rfl | rfl | rfl
        · exact Ne.symm hown
        · exact Ne.symm hown
        · exact False.elim
    · intro r hr
      obtain rfl := List.mem_singleton.mp hr
      trivial

/-! ### The last report -/

/-- The last report on an order: nothing happens to the order after it. -/
structure Last (hist : List BookEvent) (e : Order) (pre : List BookEvent) (r : ExecutionReport)
    (post : List BookEvent) : Prop where
  split : hist = pre ++ .exec r :: post
  orderId : r.orderId = e.orderId
  last : ∀ r', .exec r' ∈ post → r'.orderId ≠ e.orderId
  fits : r.Fits
  filledQty : r.filledQty = traded hist e.orderId
  exited : exited hist e.orderId = exited pre e.orderId
  quantity : r.status.isFinal = false → r.filledQty + r.remainingQty = e.quantity

variable {e : Order} {pre post : List BookEvent} {r : ExecutionReport}

lemma Sound.exists_last (h : b.Sound hist) (hinf : Informed hist) (he : .entry e ∈ hist) :
    ∃ pre r post, EuNEx.lastReport (execs hist) e.orderId = some r ∧ Last hist e pre r post := by
  obtain ⟨before, after, hsplit⟩ := List.append_of_mem he
  obtain ⟨r₀, hr₀, hid₀⟩ := hinf.told e.orderId before _ after hsplit rfl
  have hmem : .exec r₀ ∈ hist := by simp [hsplit, hr₀]
  obtain ⟨r, hlast⟩ := exists_lastReport hmem hid₀
  obtain ⟨pre, post, hhist, hid, hpost⟩ := split_lastReport hlast
  have hquiet : ∀ ev ∈ post, ¬ev.Stirs e.orderId := by
    intro ev hev hstirs
    obtain ⟨post₁, post₂, rfl⟩ := List.append_of_mem hev
    obtain ⟨r', hr', hanswers⟩ := hinf.told e.orderId (pre ++ .exec r :: post₁) ev post₂
      (by simp [hhist]) hstirs
    exact hpost r' (by simp [hr']) hanswers.orderId
  obtain ⟨hfilled, e', he', hid', -, hopen, -⟩ := h.laws.reports.always pre (.exec r) post hhist
  obtain rfl : e' = e := entry_unique h.laws.ids.entryIds_nodup
    (show .entry e' ∈ hist by simp [hhist, he']) he (hid'.trans hid)
  refine ⟨pre, r, post, hlast, hhist, hid, hpost, hinf.fits r ?_, ?_, ?_, hopen⟩
  · rw [mem_execs, hhist]
    exact List.mem_append_right _ List.mem_cons_self
  · rw [hfilled, hid, hhist, ← List.singleton_append, traded_append, traded_append, traded_exec,
      traded_of_not_stirs hquiet]
    rfl
  · rw [hhist, ← List.singleton_append, exited_append, exited_append, exited_exec,
      exited_of_not_stirs hquiet]
    rfl

/-- The last report on a live order says how much of it is left. -/
lemma Sound.last_live (h : b.Sound hist) (he : .entry e ∈ hist) (hlast : Last hist e pre r post)
    {o : Order} (ho : o ∈ b.live) (hid : o.orderId = e.orderId) :
    r.status = o.standing ∧ r.remainingQty = o.remainingQty := by
  have hopen : r.status.isFinal = false := by
    by_contra hfinal
    have hmem : .exec r ∈ hist := by
      rw [hlast.split]
      exact List.mem_append_right _ List.mem_cons_self
    exact h.laws.reports.closed (.exec r) hmem e.orderId ⟨hlast.orderId, by simpa using hfinal⟩ o ho
      hid
  have hquantity : o.quantity = e.quantity := (h.laws.ids.tracks_of_entry ho he hid.symm).quantity
  have hlive : traded hist o.orderId + o.remainingQty = o.quantity := (h.laws.account.live o ho).1
  have hsum := hlast.quantity hopen
  have hfilled := hlast.filledQty
  rw [hid] at hlive
  have hremaining : r.remainingQty = o.remainingQty := by omega
  refine ⟨?_, hremaining⟩
  have hfits := hlast.fits
  rw [ExecutionReport.Fits] at hfits
  cases hstatus : r.status with
  | new =>
    rw [hstatus] at hfits
    have hnone : r.filledQty = 0 := hfits.2
    rw [Order.standing, if_neg (by omega)]
  | partiallyFilled =>
    rw [hstatus] at hfits
    have hsome : 0 < r.filledQty := hfits.2
    rw [Order.standing, if_pos (by omega)]
  | _ => simp [hstatus, OrderStatus.isFinal] at hopen

/-- The last report on an order that has left closes it. -/
lemma Sound.last_gone (h : b.Sound hist) (hinf : Informed hist) (he : .entry e ∈ hist)
    (hlast : Last hist e pre r post) (hgone : ∀ o ∈ b.live, o.orderId ≠ e.orderId) :
    r.status.isFinal = true := by
  by_contra hfinal
  have hopen : r.status.isFinal = false := by simpa using hfinal
  have hpos : 0 < r.remainingQty := by
    have hfits := hlast.fits
    rw [ExecutionReport.Fits] at hfits
    cases hstatus : r.status with
    | new | partiallyFilled =>
      rw [hstatus] at hfits
      exact hfits.1
    | _ => simp [hstatus, OrderStatus.isFinal] at hopen
  have hbalance : traded hist e.orderId + exited hist e.orderId = e.quantity :=
    h.laws.account.gone e he hgone
  have hsum := hlast.quantity hopen
  have hfilled := hlast.filledQty
  have hexited := hlast.exited
  have hpart : 0 < EuNEx.exited pre e.orderId := by omega
  obtain ⟨o, ho, hid⟩ := exists_exit hpart
  obtain ⟨pre₁, mid, rfl⟩ := List.append_of_mem ho
  have hhist := hlast.split
  obtain ⟨r', hr', hanswers⟩ := hinf.told e.orderId pre₁ (.exit o) (mid ++ .exec r :: post)
    (by simp [hhist]) hid
  -- the order was closed when it left, and nothing is said of a closed order
  rcases List.mem_append.mp hr' with hmid | hr'
  · have hsilent : hist.Pairwise _ := h.laws.reports.silent
    rw [hhist, List.pairwise_append] at hsilent
    exact hsilent.2.2 (.exec r') (by simp [hmid]) (.exec r) (by simp) e.orderId hanswers
      hlast.orderId
  · rcases List.mem_cons.mp hr' with heq | hr'
    · cases heq
      exact hfinal hanswers.2
    · exact hlast.last r' hr' hanswers.1

/-- A live order has the price that it entered with. -/
lemma Sound.price_live (h : b.Sound hist) (he : .entry e ∈ hist) {o : Order} (ho : o ∈ b.live)
    (hid : o.orderId = e.orderId) : o.price = e.price :=
  (h.laws.ids.tracks_of_entry ho he hid.symm).price

/-- Where all are informed, the last report on a live order says how much of it is left, and the
last report on an order that has left closes it. -/
theorem Sound.lastReport (h : b.Sound hist) (hinf : Informed hist) (he : .entry e ∈ hist) :
    ∃ r, EuNEx.lastReport (execs hist) e.orderId = some r ∧
      (∀ o ∈ b.live, o.orderId = e.orderId →
        r.status = o.standing ∧ r.remainingQty = o.remainingQty) ∧
      ((∀ o ∈ b.live, o.orderId ≠ e.orderId) → r.status.isFinal = true) := by
  obtain ⟨pre, r, post, hreport, hlast⟩ := h.exists_last hinf he
  exact ⟨r, hreport, fun o ho hid => h.last_live he hlast ho hid, h.last_gone hinf he hlast⟩

/-! ### Books that inform -/

/-- The book is in continuous trading and has no stops, and all have been told. -/
structure Calm (b : Book) (hist : List BookEvent) : Prop where
  sound : b.Sound hist
  informed : Informed hist
  phase : b.phase = .cts
  rest : AllRest somethingOpen b
  stops : b.stopOrders = []

lemma Calm.new (symbolIdx : ℕ) : (new symbolIdx).Calm [] where
  sound := Sound.new symbolIdx
  informed := .nil
  phase := rfl
  rest := allRest_new symbolIdx
  stops := rfl

/-- A new order is told all that it does. -/
theorem Calm.newOrder (h : b.Calm hist) (hexec : order.ordType.isStop = false) :
    (b.newOrder order).book.Calm (hist ++ (b.newOrder order).log) := by
  have hOK := h.sound.shape.levels
  constructor
  · exact h.sound.newOrder order
  · exact h.informed.append (informed_newOrder h.sound h.phase h.rest hexec)
  · rw [(newOrder_frame hOK).2.1]
    exact h.phase
  · refine (allRest_newOrder somethingOpen_lasting hOK h.rest).mpr fun hacc => ?_
    simp [Accumulates, h.phase] at hacc
  · rw [stopOrders_newOrder_of_executable hOK hexec]
    exact h.stops

/-! ### Sizes -/

/-- What is left of the orders, and what is reported, is within a bound. -/
structure Small (bound : ℕ) (m : Matching) (orders : List Order) : Prop where
  incoming : m.incoming.remainingQty ≤ bound
  resting : ∀ o ∈ orders, o.remainingQty ≤ bound
  reports : ∀ r ∈ execs m.log, r.Within bound

section

variable {bound traded : ℕ} {p : ℤ} {m m' : Matching} {done todo : List Order} {o : Order}
  {left : Option Order} {loop : FillLoop}

lemma Small.turn (h : Small bound m (done ++ o :: todo)) (hrep : loop.reportsIncoming = false)
    (ht : loop.Turn p m m' o left traded) : Small bound m' (done ++ (left.toList ++ todo)) := by
  have hlog := ht.log
  rw [hrep, if_neg Bool.false_ne_true, List.append_nil] at hlog
  have hle : o.remainingQty ≤ bound := h.resting o (by simp)
  constructor
  case incoming => exact ht.incoming_shrunk.le.trans h.incoming
  case resting =>
    intro o' ho'
    simp only [List.mem_append, Option.mem_toList] at ho'
    rcases ho' with ho' | rfl | ho'
    · exact h.resting o' (by simp [ho'])
    · exact ht.shrunk.le.trans hle
    · exact h.resting o' (by simp [ho'])
  case reports =>
    intro r hr
    rw [hlog, execs_append, List.mem_append] at hr
    rcases hr with hr | hr
    · exact h.reports r hr
    · obtain rfl := List.mem_singleton.mp hr
      have htraded : traded ≤ bound := by
        rw [ht.qty_eq]
        exact (min_le_right _ _).trans hle
      exact ⟨(Nat.sub_le _ _).trans hle, htraded⟩

lemma small_execute (hOK : ∀ s, (b.levels s).OK) (hbound : order.quantity ≤ bound)
    (hresting : ∀ s, ∀ o ∈ b.resting s, o.remainingQty ≤ bound) :
    Small bound (b.enter order).execute [] := by
  have hrep := (fillLoop_parties order.side).2
  obtain ⟨hlog, hincoming, -⟩ := enter_flat hOK order
  have henter : Small bound (b.enter order) (b.resting order.side.opposite) :=
    ⟨hbound, hresting _, by simp [enter, execs, BookEvent.exec?]⟩
  have hsmall := Sweep.sweep_invariant (order.side.fillLoop.next order.side.opposite)
    (P := Small bound)
    (fun m done o todo m' left hsmall hv => by
      rw [FillLoop.next] at hv
      split at hv
      · exact hsmall.turn hrep (FillLoop.turn_of_visit hv)
      · cases hv) henter
  exact ⟨hincoming ▸ hsmall.incoming, by simp, hlog ▸ hsmall.reports⟩

end

lemma Small.settle {bound : ℕ} {m : Matching} {orders : List Order} (h : Small bound m orders) :
    ∀ r ∈ execs m.settle.log, r.Within bound := by
  have hlast : ∀ r, r.remainingQty ≤ m.incoming.remainingQty → r.lastQty = 0 →
      ∀ r' ∈ execs m.log ++ [r], r'.Within bound := by
    intro r hremaining hlast
    refine List.forall_mem_append.mpr ⟨h.reports, List.forall_mem_singleton.mpr ?_⟩
    exact ⟨hremaining.trans h.incoming, hlast.le.trans (Nat.zero_le _)⟩
  rw [Matching.settle]
  simp only
  split
  · split
    · exact execs_append ▸ hlast _ (Nat.zero_le _) rfl
    · exact execs_append ▸ hlast _ le_rfl rfl
  · exact execs_append ▸ hlast _ (Nat.zero_le _) rfl

/-- The reports on a new order are within the size of the orders. -/
lemma Calm.within_newOrder (h : b.Calm hist) (hexec : order.ordType.isStop = false) {bound : ℕ}
    (hbound : order.quantity ≤ bound) (hentries : ∀ e, .entry e ∈ hist → e.quantity ≤ bound) :
    ∀ r ∈ execs (b.newOrder order).log, r.Within bound := by
  have hresting : ∀ s, ∀ o ∈ b.resting s, o.remainingQty ≤ bound := by
    intro s o ho
    obtain ⟨e, he, htracks⟩ := h.sound.laws.ids.entered o (mem_live.mpr (.inl ⟨s, ho⟩))
    have hle := (bound_resting h.sound h.rest ho).2
    rw [htracks.quantity] at hle
    exact hle.trans (hentries e he)
  have hsmall := small_execute h.sound.shape.levels hbound hresting
  rw [newOrder_cts h.phase hexec]
  split
  · exact hsmall.settle
  · intro r hr
    obtain rfl := List.mem_singleton.mp hr
    exact ⟨hbound, Nat.zero_le _⟩

end Book

end EuNEx
