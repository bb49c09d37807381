import EuNEx.Dashboard.FIXSession
import EuNEx.Dashboard.OnEntry

/-!
# True reports

Fills that happen after an order has entered are not reported by the FIX server: a run of true
reports is one in which nothing depends on them.
-/

namespace EuNEx.Dashboard.FIXSession

variable {P : Type*}

/-- What the engine has executed for the order of a report; an order without an id never got
there. -/
def executedFor (m : MatchingEngine P) (orderId : Option ℕ) : ℤ :=
  (orderId.map (executed m.trades)).getD 0

/-- What is open of it. -/
def liveFor (m : MatchingEngine P) (orderId : Option ℕ) : ℤ := (orderId.map m.live).getD 0

/-- The last quantity that a reply reports for an order. -/
def Reply.lastQty (orderId : Option ℕ) : Reply P → ℤ
  | .report r => if r.orderId = orderId then r.lastQty.getD 0 else 0
  | _ => 0

/-- The sum of the last quantities that have been reported. -/
def lastQtys (sent : List (Reply P)) (orderId : Option ℕ) : ℤ :=
  Tally.balance (Reply.lastQty orderId) sent

/-- A report gives what has been executed and what is open, and it is what all reports add up to. -/
structure Report.IsTrue (m : MatchingEngine P) (sent : List (Reply P)) (r : Report P) : Prop where
  cumQty : r.cumQty = executedFor m r.orderId
  leavesQty : r.leavesQty = liveFor m r.orderId
  lastQty : lastQtys sent r.orderId = r.cumQty

/-- The reports among the replies are true, once these are sent. -/
def AllTrue (sent : List (Reply P)) (answer : (MatchingEngine P × State P) × List (Reply P)) :
    Prop :=
  ∀ r, .report r ∈ answer.2 → r.IsTrue answer.1.1 (sent ++ answer.2)

/-- The fills of an order on entry have been reported. -/
def Reported (sent : List (Reply P)) (id : ℕ) : Prop :=
  ∃ r, .report r ∈ sent ∧ r.orderId = some id ∧ r.execType = 'F'

/-- All fills have been reported: those on entry, if there are no others, or there are none. -/
def UpToDate (m : MatchingEngine P) (sent : List (Reply P)) (id : ℕ) : Prop :=
  (Reported sent id → Unmet m.trades id) ∧ (¬Reported sent id → executed m.trades id = 0)

section

variable [LinearOrder P] (symbols : List (ℕ × List Char)) (m : MatchingEngine P)
  (sent : List (Reply P))

/-- A new order is filled or rests, and one that is rejected has no quantity. -/
def NewOrderSound (o : NewOrderSingle P) : Prop :=
  match resolveSymbol symbols o.symbol with
  | none => o.qty = 0
  | some symbolIdx => m.Filled symbolIdx o.submission

/-- If the order is open, it has had no fill since those on entry, and what is kept of it shows a
fill exactly if there was one. -/
def CancelSound (tracked : Order P) : Prop :=
  ∀ a ∈ m.orders, a.orderId = tracked.orderId → a.isOpen = true →
    UpToDate m sent tracked.orderId ∧
      (executed m.trades tracked.orderId ≠ 0 ↔ tracked.quantity ≠ tracked.remainingQty)

/-- The same of the order itself, which a new quantity makes a new one. -/
def AmendSound (tracked : Order P) (newQuantity : Option ℤ) : Prop :=
  ∀ a ∈ m.orders, a.orderId = tracked.orderId → a.isOpen = true →
    UpToDate m sent tracked.orderId ∧
      (executed m.trades tracked.orderId ≠ 0 ↔
        newQuantity = none ∧ a.quantity ≠ a.remainingQty)

/-- A message does not depend on what has not been reported, unless its report cannot be sent. -/
def MessageSound [Zero P] (float : List Char → Option P) (s : State P) (fields : TagMap) : Prop :=
  match getTag fields 35 [] with
  | ['D'] => ∀ o ∈ NewOrderSingle.read float fields,
      s.encodes (o.clOrdId ++ o.symbol ++ o.sideFix) = true → NewOrderSound symbols m o
  | ['F'] => ∀ tracked ∈ s.tracked (getTag fields 41 []),
      s.encodes (getTag fields 41 [] ++ symbolName symbols tracked.symbolIdx ++ sideFix tracked)
        = true → CancelSound m sent tracked
  | ['G'] => ∀ tracked ∈ s.tracked (getTag fields 41 []),
      ∀ newPrice ∈ number? float fields 44, ∀ newQuantity ∈ number? PyString.int fields 38,
        s.encodes (getTag fields 41 [] ++ symbolName symbols tracked.symbolIdx ++ sideFix tracked)
          = true → AmendSound m sent tracked newQuantity
  | _ => True

/-- The message that is handled next is sound. -/
def Sound [Zero P] (float : List Char → Option P) (w : MatchingEngine P × State P)
    (sent : List (Reply P)) : Input P → Prop
  | .next => ∀ msgRaw buf, Framing.cut checkSumTag soh w.2.buf = some (msgRaw, buf) →
      ∀ fields ∈ FixServer.parseFix msgRaw, MessageSound symbols w.1 sent float w.2 fields
  | _ => True

end

/-! ### Reports -/

section

variable {m : MatchingEngine P} {s : State P} {sent replies : List (Reply P)} {r : Report P}
  {id : ℕ}

lemma lastQtys_append (orderId : Option ℕ) :
    lastQtys (sent ++ replies) orderId = lastQtys sent orderId + lastQtys replies orderId :=
  Tally.balance_append ..

lemma lastQtys_report (orderId : Option ℕ) : lastQtys [.report r] orderId
    = if r.orderId = orderId then r.lastQty.getD 0 else 0 := by
  simp [lastQtys, Tally.balance, Reply.lastQty]

lemma lastQtys_eq_zero {orderId : Option ℕ}
    (h : ∀ r, .report r ∈ sent → r.orderId = orderId → r.lastQty.getD 0 = 0) :
    lastQtys sent orderId = 0 := by
  refine Tally.balance_eq_zero fun reply hreply => ?_
  cases reply with
  | report r =>
    rw [Reply.lastQty]
    split
    · exact h r hreply ‹_›
    · rfl
  | cancelReject clOrdId text => rfl
  | admin msgType text => rfl

lemma reported_append : Reported (sent ++ replies) id ↔ Reported sent id ∨ Reported replies id := by
  simp only [Reported, List.mem_append, or_and_right, exists_or]

/-- The reports that have been sent are on ids that have been given out, and those without an id
have no last quantity. -/
structure Numbered (m : MatchingEngine P) (sent : List (Reply P)) : Prop where
  given : ∀ r, .report r ∈ sent → ∀ id ∈ r.orderId, id < m.nextOrderId
  rejected : ∀ r, .report r ∈ sent → r.orderId = none → r.lastQty = none

lemma Numbered.lastQtys_new (h : Numbered m sent) : lastQtys sent (some m.nextOrderId) = 0 :=
  lastQtys_eq_zero fun r hr hid => absurd (h.given r hr m.nextOrderId hid) (lt_irrefl _)

lemma Numbered.lastQtys_none (h : Numbered m sent) : lastQtys sent none = 0 :=
  lastQtys_eq_zero fun r hr hid => by rw [h.rejected r hr hid]; rfl

lemma Numbered.lt_of_reported (h : Numbered m sent) (hid : Reported sent id) :
    id < m.nextOrderId := by
  obtain ⟨r, hr, hr', -⟩ := hid
  exact h.given r hr id hr'

/-- Only the quantities of a report matter. -/
lemma Report.IsTrue.congr {r' : Report P} (h : r.IsTrue m sent) (hid : r'.orderId = r.orderId)
    (hcum : r'.cumQty = r.cumQty) (hleaves : r'.leavesQty = r.leavesQty) : r'.IsTrue m sent where
  cumQty := by rw [hcum, hid, h.cumQty]
  leavesQty := by rw [hleaves, hid, h.leavesQty]
  lastQty := by rw [hid, hcum, h.lastQty]

lemma allTrue_of_forall {answer : (MatchingEngine P × State P) × List (Reply P)}
    (h : ∀ r, .report r ∉ answer.2) : AllTrue sent answer := fun r hr => absurd hr (h r)

/-- A report that adds nothing to the sum, on an order that has been given out. -/
lemma allTrue_singleton_iff (hid : r.orderId = some id) (hlast : r.lastQty = some 0) :
    AllTrue sent ((m, s), [.report r]) ↔ r.cumQty = executed m.trades id ∧ r.leavesQty = m.live id ∧
      lastQtys sent (some id) = r.cumQty := by
  have hsum : lastQtys (sent ++ [.report r]) r.orderId = lastQtys sent (some id) := by
    rw [lastQtys_append, lastQtys_report, if_pos rfl, hlast, hid]
    exact add_zero _
  constructor
  · intro hall
    obtain ⟨hcum, hleaves, hlastQty⟩ := hall r (List.mem_singleton_self _)
    rw [hid] at hcum hleaves
    exact ⟨hcum, hleaves, hsum ▸ hlastQty⟩
  · rintro ⟨hcum, hleaves, hlastQty⟩ r' hr'
    obtain rfl := Reply.report.inj (List.mem_singleton.mp hr')
    refine ⟨?_, ?_, hsum.trans hlastQty⟩
    · rw [hid]
      exact hcum
    · rw [hid]
      exact hleaves

/-! ### Sending -/

/-- If all replies have the same texts, all are sent or none. -/
lemma send_of_texts {answer : (MatchingEngine P × State P) × List (Reply P)} {texts : List Char}
    (h : ∀ reply ∈ answer.2, reply.texts = texts) : (send answer).2
      = if answer.1.2.encodes texts = true then answer.2 else [] := by
  rw [send]
  split
  · rename_i hencodes
    exact List.filter_eq_self.mpr fun reply hreply => (h reply hreply).symm ▸ hencodes
  · rename_i hencodes
    refine List.filter_eq_nil_iff.mpr fun reply hreply => ?_
    rw [h reply hreply]
    exact hencodes

lemma allTrue_send_iff {answer : (MatchingEngine P × State P) × List (Reply P)} {texts : List Char}
    (h : ∀ reply ∈ answer.2, reply.texts = texts) :
    AllTrue sent (send answer) ↔ (answer.1.2.encodes texts = true → AllTrue sent answer) := by
  rw [AllTrue, send_of_texts h]
  split
  · rename_i hencodes
    exact ⟨fun hall _ => hall, fun hall => hall hencodes⟩
  · rename_i hencodes
    exact iff_of_true (by simp) fun h => absurd h hencodes

lemma allTrue_send_of_forall {answer : (MatchingEngine P × State P) × List (Reply P)}
    (h : ∀ r, .report r ∉ answer.2) : AllTrue sent (send answer) :=
  allTrue_of_forall fun r hr => h r (List.mem_of_mem_filter hr)

end

/-! ### The invariant -/

/-- What is kept is of an order that has been given out, and has not missed what an amend does. -/
structure Kept.Tracked (m : MatchingEngine P) (o : Order P) : Prop where
  given : o.orderId < m.nextOrderId
  shows : o.Shows m.trades

/-- The invariant of runs: fills on entry are reported whole or not at all. -/
structure Kept [LinearOrder P] (m : MatchingEngine P) (trackedOrders : Table (List Char) (Order P))
    (sent : List (Reply P)) : Prop where
  inStep : m.InStep
  below : m.TradesBelow
  lasting : m.Lasting
  numbered : Numbered m sent
  tracked : ∀ clOrdId, ∀ o ∈ trackedOrders clOrdId, Kept.Tracked m o
  reported : ∀ id, Reported sent id → lastQtys sent (some id) = entered m.trades id
  unreported : ∀ id, ¬Reported sent id → lastQtys sent (some id) = 0

/-- A report that gives no fill, on an order that has been given out or on none. -/
structure Report.Quiet (m : MatchingEngine P) (r : Report P) : Prop where
  given : ∀ id ∈ r.orderId, id < m.nextOrderId
  rejected : r.orderId = none → r.lastQty = none
  lastQty : r.lastQty.getD 0 = 0
  execType : r.execType ≠ 'F'

lemma Report.quiet_of_given {m : MatchingEngine P} {r : Report P} {id : ℕ}
    (hid : r.orderId = some id) (hlt : id < m.nextOrderId) (hlast : r.lastQty = some 0)
    (hfill : r.execType ≠ 'F') : r.Quiet m where
  given id' hid' := by
    obtain rfl := Option.some.inj (hid.symm.trans hid')
    exact hlt
  rejected hnone := by cases hid.symm.trans hnone
  lastQty := by rw [hlast]; rfl
  execType := hfill

namespace Kept

section

variable [LinearOrder P] {m : MatchingEngine P} {trackedOrders : Table (List Char) (Order P)}
  {sent replies : List (Reply P)} {a : Order P}

/-- What an open order shows, and what has been reported of it, is what it has executed exactly if
no fill has been missed. -/
lemma upToDate_iff (h : Kept m trackedOrders sent) (ha : a ∈ m.orders) {id : ℕ}
    (hid : a.orderId = id) (hopen : a.isOpen = true) {shown : ℤ}
    (hshown : Unmet m.trades id → shown = 0 ∨ shown = entered m.trades id) :
    shown = executed m.trades id ∧ lastQtys sent (some id) = executed m.trades id ↔
      UpToDate m sent id ∧ (executed m.trades id ≠ 0 ↔ shown ≠ 0) := by
  subst hid
  have hexecuted : executed m.trades a.orderId = _ := Dashboard.executed_eq h.lasting.distinct
  constructor
  · rintro ⟨hshown, hlast⟩
    refine ⟨⟨fun hreported => ?_, fun hunreported => ?_⟩, by rw [hshown]⟩
    · by_contra hmet
      have hpos := met_pos (h.lasting.lasts a ha hopen).positive hmet
      have hentered := h.reported a.orderId hreported
      omega
    · exact hlast.symm.trans (h.unreported a.orderId hunreported)
  · rintro ⟨⟨hunmet, hnone⟩, hiff⟩
    by_cases hreported : Reported sent a.orderId
    · have heq := (hunmet hreported).executed_eq h.lasting.distinct
      refine ⟨?_, (h.reported a.orderId hreported).trans heq.symm⟩
      rcases hshown (hunmet hreported) with hz | hentered
      · rw [hz]
        by_contra hne
        exact hiff.mp (Ne.symm hne) hz
      · exact hentered.trans heq.symm
    · have hz := hnone hreported
      refine ⟨?_, (h.unreported a.orderId hreported).trans hz.symm⟩
      rw [hz]
      by_contra hne
      exact hiff.mpr hne hz

/-- Nothing is reported of a new order before it is there. -/
lemma not_reported_new (h : Kept m trackedOrders sent) : ¬Reported sent m.nextOrderId :=
  fun hreported => lt_irrefl _ (h.numbered.lt_of_reported hreported)

/-- Replies that give no fill. -/
lemma reply (h : Kept m trackedOrders sent) (hreplies : ∀ r, .report r ∈ replies → r.Quiet m) :
    Kept m trackedOrders (sent ++ replies) := by
  have hlast (orderId : Option ℕ) : lastQtys (sent ++ replies) orderId = lastQtys sent orderId := by
    rw [lastQtys_append, lastQtys_eq_zero fun r hr _ => (hreplies r hr).lastQty, add_zero]
  have hreported (id : ℕ) : Reported (sent ++ replies) id ↔ Reported sent id := by
    rw [reported_append, or_iff_left]
    rintro ⟨r, hr, -, hfill⟩
    exact (hreplies r hr).execType hfill
  refine ⟨h.inStep, h.below, h.lasting, ⟨fun r hr => ?_, fun r hr => ?_⟩, h.tracked,
    fun id hid => ?_, fun id hid => ?_⟩
  · rcases List.mem_append.mp hr with hr | hr
    · exact h.numbered.given r hr
    · exact (hreplies r hr).given
  · rcases List.mem_append.mp hr with hr | hr
    · exact h.numbered.rejected r hr
    · exact (hreplies r hr).rejected
  · rw [hlast]
    exact h.reported id ((hreported id).mp hid)
  · rw [hlast]
    exact h.unreported id fun hsent => hid ((hreported id).mpr hsent)

/-- An order is kept. -/
lemma track (h : Kept m trackedOrders sent) {o : Order P} (ho : Kept.Tracked m o)
    (clOrdId : List Char) : Kept m (trackedOrders.replace clOrdId o) sent := by
  refine { h with tracked := fun key o' ho' => ?_ }
  by_cases hkey : key = clOrdId
  · rw [hkey, Table.replace_self] at ho'
    exact Option.some.inj ho' ▸ ho
  · rw [Table.replace_of_ne hkey] at ho'
    exact h.tracked key o' ho'

variable [Zero P]

/-- A request changes nothing about the fills on entry of the orders before it. -/
lemma post (h : Kept m trackedOrders sent) (symbols : List (ℕ × List Char)) (request : Request P) :
    Kept (postOrder symbols m request).1 trackedOrders sent := by
  obtain ⟨hnext, hbelow⟩ := h.below.handle h.inStep (symbols.map Prod.fst) request
  have hentered {id : ℕ} (hid : id < m.nextOrderId) :=
    MatchingEngine.entered_handle h.inStep h.below (symbols.map Prod.fst) request hid
  refine ⟨h.inStep.handle _ request, hbelow, h.lasting.handle h.inStep h.below _ request,
    ⟨fun r hr id hid => (h.numbered.given r hr id hid).trans_le hnext, h.numbered.rejected⟩,
    fun clOrdId o ho => ?_, fun id hid => ?_, h.unreported⟩
  · obtain ⟨hgiven, hshows⟩ := h.tracked clOrdId o ho
    obtain ⟨heq, hunmet⟩ := hentered hgiven
    exact ⟨hgiven.trans_le hnext, fun hstill => heq ▸ hshows (hunmet hstill)⟩
  · rw [h.reported id hid]
    exact (hentered (h.numbered.lt_of_reported hid)).1.symm

end

end Kept

/-- The invariant after an answer. -/
def KeptBy [LinearOrder P] (sent : List (Reply P))
    (answer : (MatchingEngine P × State P) × List (Reply P)) : Prop :=
  Kept answer.1.1 answer.1.2.trackedOrders (sent ++ answer.2)

lemma keptBy_send [LinearOrder P] {sent : List (Reply P)}
    {answer : (MatchingEngine P × State P) × List (Reply P)}
    (h : Kept answer.1.1 answer.1.2.trackedOrders sent)
    (hreplies : ∀ r, .report r ∈ answer.2 → r.Quiet answer.1.1) : KeptBy sent (send answer) :=
  h.reply fun r hr => hreplies r (List.mem_of_mem_filter hr)

/-- The invariant after what is sent, of replies with the same texts. -/
lemma keptBy_send_of_texts [LinearOrder P] {sent : List (Reply P)}
    {answer : (MatchingEngine P × State P) × List (Reply P)}
    {texts : List Char} (htexts : ∀ reply ∈ answer.2, reply.texts = texts)
    (h : Kept answer.1.1 answer.1.2.trackedOrders sent)
    (hsent : Kept answer.1.1 answer.1.2.trackedOrders (sent ++ answer.2)) :
    KeptBy sent (send answer) := by
  rw [KeptBy, send_of_texts htexts]
  split
  · exact hsent
  · rw [List.append_nil]
    exact h

/-! ### New orders -/

section

variable [Zero P] {m : MatchingEngine P} {s : State P} {sent : List (Reply P)}
  {o : NewOrderSingle P}

/-- A reject is true of an order without a quantity. -/
lemma isTrue_sendReject_iff (h : Numbered m sent) {reason : List Char} :
    AllTrue sent ((m, s), [sendReject o reason]) ↔ o.qty = 0 := by
  have hsum : lastQtys (sent ++ [sendReject o reason]) none = 0 := by
    rw [lastQtys_append, h.lastQtys_none, sendReject, lastQtys_report]
    rfl
  constructor
  · intro hall
    exact (hall _ (List.mem_singleton_self _)).leavesQty
  · intro hqty r hr
    obtain rfl := Reply.report.inj (List.mem_singleton.mp hr)
    exact ⟨rfl, hqty, hsum⟩

/-- The second report gives what has been filled. -/
lemma lastQtys_newReplies {result : Order P} : lastQtys (newReplies o result) (some result.orderId)
    = if result.status = .filled ∨ result.status = .partiallyFilled then o.qty - result.remainingQty
      else 0 := by
  have hfirst : lastQtys [.report (newReport o result)] (some result.orderId) = 0 :=
    (lastQtys_report _).trans (if_pos rfl)
  rw [newReplies, ← List.singleton_append, lastQtys_append, hfirst, zero_add]
  split
  · exact (lastQtys_report _).trans (if_pos rfl)
  · rfl

/-- All reports on a new order are true if the first is. -/
lemma allTrue_newReplies_iff {result : Order P} :
    AllTrue sent ((m, s), newReplies o result) ↔
      (newReport o result).IsTrue m (sent ++ newReplies o result) := by
  constructor
  · exact fun h => h _ List.mem_cons_self
  · intro h r hr
    rcases List.mem_cons.mp hr with hr | hr
    · exact Reply.report.inj hr ▸ h
    · split at hr
      · obtain rfl := Reply.report.inj (List.mem_singleton.mp hr)
        exact h.congr rfl rfl rfl
      · cases hr

/-- The second report is the one of a fill. -/
lemma reported_newReplies_iff {result : Order P} {id : ℕ} : Reported (newReplies o result) id ↔
    id = result.orderId ∧ (result.status = .filled ∨ result.status = .partiallyFilled) := by
  rw [newReplies]
  split
  · rename_i hfilled
    constructor
    · rintro ⟨r, hr, hid, -⟩
      refine ⟨?_, hfilled⟩
      rcases List.mem_cons.mp hr with hr | hr
      · rw [Reply.report.inj hr] at hid
        exact (Option.some.inj hid).symm
      · rw [Reply.report.inj (List.mem_singleton.mp hr)] at hid
        exact (Option.some.inj hid).symm
    · rintro ⟨rfl, -⟩
      exact ⟨fillReport o result, by simp, rfl, rfl⟩
  · rename_i hnot
    refine iff_of_false ?_ fun h => hnot h.2
    rintro ⟨r, hr, -, hfill⟩
    rw [Reply.report.inj (List.mem_singleton.mp hr)] at hfill
    cases hfill

lemma orderId_of_mem_newReplies {result : Order P} {r : Report P}
    (h : .report r ∈ newReplies o result) : r.orderId = some result.orderId := by
  rw [newReplies] at h
  rcases List.mem_cons.mp h with h | h
  · exact Reply.report.inj h ▸ rfl
  · split at h
    · exact Reply.report.inj (List.mem_singleton.mp h) ▸ rfl
    · cases h

lemma texts_newReplies {result : Order P} {reply : Reply P} (h : reply ∈ newReplies o result) :
    reply.texts = o.clOrdId ++ o.symbol ++ o.sideFix := by
  rw [newReplies] at h
  rcases List.mem_cons.mp h with rfl | h
  · rfl
  · split at h
    · rw [List.mem_singleton.mp h]
      rfl
    · cases h

variable [LinearOrder P] {symbols : List (ℕ × List Char)}
  {trackedOrders : Table (List Char) (Order P)}

/-- A symbol that is resolved has a book. -/
lemma postOrder_submit {symbolIdx : ℕ} (h : symbolIdx ∈ symbols.map Prod.fst) (r : Submission P) :
    postOrder symbols m (.submit symbolIdx r)
      = ((m.submitOrder symbolIdx r).1, some (m.submitOrder symbolIdx r).2) :=
  MatchingEngine.handle_submit h r

/-- The reports on a new order are true exactly if it rests or is filled. -/
lemma allTrue_submitOrder_iff (h : Kept m trackedOrders sent) (symbolIdx : ℕ) :
    AllTrue sent (((m.submitOrder symbolIdx o.submission).1, s),
        newReplies o (m.submitOrder symbolIdx o.submission).2) ↔
      m.Filled symbolIdx o.submission := by
  obtain ⟨hanswer, hquantity, haccounted, -, -, -, -⟩ :=
    MatchingEngine.submitOrder_answered h.inStep h.below symbolIdx o.submission
  have hinStep := h.inStep.submitOrder symbolIdx o.submission
  have hid := m.orderId_submitOrder symbolIdx o.submission
  set result := (m.submitOrder symbolIdx o.submission).2
  set m' := (m.submitOrder symbolIdx o.submission).1
  have hqty : o.qty = result.quantity := hquantity.symm
  have hsum : lastQtys (sent ++ newReplies o result) (some result.orderId)
      = if result.status = .filled ∨ result.status = .partiallyFilled then
          o.qty - result.remainingQty else 0 := by
    rw [lastQtys_append, lastQtys_newReplies, hid, h.numbered.lastQtys_new, zero_add]
  have hcum : o.qty - result.remainingQty = executed m'.trades result.orderId := by
    rw [hqty]
    exact haccounted
  rw [allTrue_newReplies_iff]
  cases hanswer with
  | rests hpos hopen hmem hmarked hfilled =>
    refine iff_of_true ⟨hcum, (live_of_mem hinStep hmem hopen).symm, hsum.trans ?_⟩ hfilled
    show _ = o.qty - result.remainingQty
    split
    · rfl
    · rename_i hnew
      rw [hmarked.resolve_right fun h => hnew (.inr h), hqty, hquantity, sub_self]
  | filled hzero hstatus hgone hfilled =>
    refine iff_of_true ⟨hcum, ?_, hsum.trans (if_pos (.inl hstatus))⟩ hfilled
    exact hzero.trans (live_of_not_open fun a ha heq => absurd (heq.trans hid) (hgone a ha)).symm
  | left hne hgone hleft =>
    refine iff_of_false (fun htrue => hne (htrue.leavesQty.trans ?_)) hleft
    exact live_of_not_open fun a ha heq => absurd (heq.trans hid) (hgone a ha)

/-- The reports on a new order, if they are sent. -/
lemma handleNewOrder_iff (h : Kept m s.trackedOrders sent) :
    AllTrue sent (send (handleNewOrder symbols m s o)) ↔
      (s.encodes (o.clOrdId ++ o.symbol ++ o.sideFix) = true → NewOrderSound symbols m o) := by
  rw [handleNewOrder, NewOrderSound]
  cases hsymbol : resolveSymbol symbols o.symbol with
  | none =>
    refine (allTrue_send_iff fun reply hreply => ?_).trans
      (forall_congr' fun _ => isTrue_sendReject_iff h.numbered)
    rw [List.mem_singleton.mp hreply]
    rfl
  | some symbolIdx =>
    simp only [postOrder_submit (mem_of_symbolNamed hsymbol)]
    exact (allTrue_send_iff fun reply hreply => texts_newReplies hreply).trans
      (forall_congr' fun _ => allTrue_submitOrder_iff h symbolIdx)

/-- The new order is kept, with the fills that have been reported of it. -/
lemma Kept.newReplies (h : Kept m trackedOrders sent) {symbolIdx : ℕ}
    (hm : Kept (m.submitOrder symbolIdx o.submission).1 trackedOrders sent) :
    Kept (m.submitOrder symbolIdx o.submission).1 trackedOrders
      (sent ++ FIXSession.newReplies o (m.submitOrder symbolIdx o.submission).2) := by
  obtain ⟨-, hquantity, haccounted, -, -, -, -⟩ :=
    MatchingEngine.submitOrder_answered h.inStep h.below symbolIdx o.submission
  have hid := m.orderId_submitOrder symbolIdx o.submission
  have hnext := (m.submitOrder_frame symbolIdx o.submission).1
  have hunmet := MatchingEngine.unmet_submit h.inStep h.below symbolIdx o.submission
  have hnew := h.numbered.lastQtys_new
  have hnot := h.not_reported_new
  set result := (m.submitOrder symbolIdx o.submission).2
  set m' := (m.submitOrder symbolIdx o.submission).1
  rw [← hid] at hunmet hnew hnot
  have hentered : o.qty - result.remainingQty = entered m'.trades result.orderId := by
    rw [← hunmet.executed_eq hm.lasting.distinct, ← haccounted, hquantity]
    rfl
  have hother {id : ℕ} (hne : id ≠ result.orderId) :
      lastQtys (FIXSession.newReplies o result) (some id) = 0 := by
    refine lastQtys_eq_zero fun r hr hrid => absurd ?_ hne
    exact Option.some.inj (hrid.symm.trans (orderId_of_mem_newReplies hr))
  refine ⟨hm.inStep, hm.below, hm.lasting, ⟨fun r hr id hrid => ?_, fun r hr hrid => ?_⟩,
    hm.tracked, fun id hreported => ?_, fun id hreported => ?_⟩
  · rcases List.mem_append.mp hr with hr | hr
    · exact hm.numbered.given r hr id hrid
    · obtain rfl := Option.some.inj ((orderId_of_mem_newReplies hr).symm.trans hrid)
      rw [hid, hnext]
      exact Nat.lt_succ_self _
  · rcases List.mem_append.mp hr with hr | hr
    · exact hm.numbered.rejected r hr hrid
    · cases (orderId_of_mem_newReplies hr).symm.trans hrid
  · rw [lastQtys_append]
    rcases reported_append.mp hreported with hsent | hsent
    · have hne : id ≠ result.orderId := fun heq => hnot (heq ▸ hsent)
      rw [hother hne, add_zero]
      exact hm.reported id hsent
    · obtain ⟨rfl, hfilled⟩ := reported_newReplies_iff.mp hsent
      rw [hnew, zero_add, lastQtys_newReplies, if_pos hfilled]
      exact hentered
  · rw [reported_append, not_or] at hreported
    rw [lastQtys_append, hm.unreported id hreported.1, zero_add]
    by_cases hne : id = result.orderId
    · rw [hne, lastQtys_newReplies, if_neg]
      exact fun hfilled => hreported.2 (reported_newReplies_iff.mpr ⟨hne, hfilled⟩)
    · exact hother hne

/-- What `submit_order` returns shows what it has executed. -/
lemma tracked_submitOrder (h : Kept m trackedOrders sent) (symbolIdx : ℕ)
    (hm : Kept (m.submitOrder symbolIdx o.submission).1 trackedOrders sent) :
    Kept.Tracked (m.submitOrder symbolIdx o.submission).1
      (m.submitOrder symbolIdx o.submission).2 where
  given := by
    rw [m.orderId_submitOrder, (m.submitOrder_frame symbolIdx o.submission).1]
    exact Nat.lt_succ_self _
  shows hunmet := by
    rw [← hunmet.executed_eq hm.lasting.distinct]
    have hanswered := MatchingEngine.submitOrder_answered h.inStep h.below symbolIdx o.submission
    exact .inr hanswered.accounted

lemma keptBy_handleNewOrder (h : Kept m s.trackedOrders sent) :
    KeptBy sent (send (handleNewOrder symbols m s o)) := by
  rw [handleNewOrder]
  cases hsymbol : resolveSymbol symbols o.symbol with
  | none =>
    dsimp only
    refine keptBy_send h fun r hr => ?_
    obtain rfl := Reply.report.inj (List.mem_singleton.mp hr)
    exact ⟨by rintro id ⟨⟩, fun _ => rfl, rfl, by rintro ⟨⟩⟩
  | some symbolIdx =>
    have hpost := postOrder_submit (m := m) (mem_of_symbolNamed hsymbol) o.submission
    have hm := h.post symbols (.submit symbolIdx o.submission)
    rw [hpost] at hm
    simp only [hpost]
    have htracked := tracked_submitOrder h symbolIdx hm
    exact keptBy_send_of_texts (fun reply hreply => texts_newReplies hreply)
      (hm.track htracked o.clOrdId) ((h.newReplies hm).track htracked o.clOrdId)

/-! ### Cancels and amends -/

variable {fields : TagMap}

omit [LinearOrder P] [Zero P] in
lemma State.mem_trackedOrders {clOrdId : List Char} {tracked : Order P}
    (h : s.tracked clOrdId = some tracked) : tracked ∈ s.trackedOrders clOrdId :=
  (Option.filter_eq_some_iff.mp h).1

omit [Zero P] in
/-- What is kept shows what has been executed. -/
lemma Kept.cancelSound_iff (h : Kept m trackedOrders sent) {tracked : Order P}
    (htracked : Kept.Tracked m tracked) : CancelSound m sent tracked ↔
      ∀ a ∈ m.orders, a.orderId = tracked.orderId → a.isOpen = true →
        tracked.quantity - tracked.remainingQty = executed m.trades tracked.orderId ∧
          lastQtys sent (some tracked.orderId) = executed m.trades tracked.orderId := by
  refine forall₂_congr fun a ha => forall₂_congr fun hid hopen => ?_
  rw [h.upToDate_iff ha hid hopen htracked.shows, sub_ne_zero]

omit [Zero P] in
/-- The order shows what has been executed. -/
lemma Kept.amendSound_iff (h : Kept m trackedOrders sent) {tracked : Order P}
    {newQuantity : Option ℤ} : AmendSound m sent tracked newQuantity ↔
      ∀ a ∈ m.orders, a.orderId = tracked.orderId → a.isOpen = true →
        (if newQuantity.isSome then 0 else a.quantity - a.remainingQty)
            = executed m.trades tracked.orderId ∧
          lastQtys sent (some tracked.orderId) = executed m.trades tracked.orderId := by
  refine forall₂_congr fun a ha => forall₂_congr fun hid hopen => ?_
  rw [h.upToDate_iff ha hid hopen]
  · cases newQuantity with
    | none => simp [sub_ne_zero]
    | some q => simp
  · intro hunmet
    cases newQuantity with
    | none => exact hid ▸ (h.lasting.lasts a ha hopen).shows (hid ▸ hunmet)
    | some q => exact .inl rfl

/-- The report on a cancel is true exactly if what is kept has all that has been executed. -/
lemma handleCancel_iff (h : Kept m s.trackedOrders sent) :
    AllTrue sent (send (handleCancel symbols m s fields)) ↔
      ∀ tracked ∈ s.tracked (getTag fields 41 []),
        s.encodes (getTag fields 41 [] ++ symbolName symbols tracked.symbolIdx ++ sideFix tracked)
          = true → CancelSound m sent tracked := by
  rw [handleCancel]
  cases htracked : s.tracked (getTag fields 41 []) with
  | none => exact iff_of_true (allTrue_send_of_forall (by simp)) (by simp)
  | some tracked =>
    simp only [Option.mem_some_iff, forall_eq']
    rw [h.cancelSound_iff (h.tracked _ tracked (s.mem_trackedOrders htracked)), postOrder,
      MatchingEngine.handle]
    cases hr : m.cancelOrder tracked.orderId with
    | none =>
      refine iff_of_true (allTrue_send_of_forall (by simp)) fun _ a ha hid hopen => ?_
      obtain ⟨r, hsome⟩ := MatchingEngine.exists_cancelOrder ha hid hopen
      cases hr.symm.trans hsome
    | some r =>
      obtain ⟨hinStep, hid2, hstatus, -, htrades, -, -⟩ := h.inStep.cancelOrder_spec hr
      obtain ⟨o, ho, hid, hopen, -⟩ := MatchingEngine.exists_of_cancelOrder hr
      obtain ⟨-, as, bs, -, horders', -⟩ := MatchingEngine.orders_of_cancelOrder h.inStep hr
      have hlive : r.1.live tracked.orderId = 0 := by
        refine live_of_not_open fun a ha hida hopena => ?_
        obtain rfl := hinStep.eq_of_orderId ha (horders' ▸ by simp) (hida.trans hid2.symm)
        simp [Order.isOpen, hstatus] at hopena
      refine (allTrue_send_iff fun reply hreply => List.mem_singleton.mp hreply ▸ rfl).trans
        (forall_congr' fun _ => (allTrue_singleton_iff rfl rfl).trans ?_)
      show tracked.quantity - tracked.remainingQty = executed r.1.trades tracked.orderId ∧
        (0 : ℤ) = r.1.live tracked.orderId ∧
          lastQtys sent (some tracked.orderId) = tracked.quantity - tracked.remainingQty ↔ _
      rw [htrades, hlive]
      constructor
      · rintro ⟨hcum, -, hsum⟩ a - - -
        exact ⟨hcum, hsum.trans hcum⟩
      · intro hsound
        obtain ⟨hcum, hsum⟩ := hsound o ho hid hopen
        exact ⟨hcum, rfl, hsum.trans hcum.symm⟩

/-- The report on an amend is true exactly if the order shows what has been executed. -/
lemma amendTracked_iff (h : Kept m s.trackedOrders sent) {origClOrdId : List Char}
    {tracked : Order P} {newPrice : Option P} {newQuantity : Option ℤ} :
    AllTrue sent (send (amendTracked symbols m s origClOrdId tracked newPrice newQuantity)) ↔
      (s.encodes (origClOrdId ++ symbolName symbols tracked.symbolIdx ++ sideFix tracked) = true →
        AmendSound m sent tracked newQuantity) := by
  rw [amendTracked, h.amendSound_iff, postOrder, MatchingEngine.handle]
  cases hr : m.amendOrder tracked.orderId newPrice newQuantity with
  | none =>
    refine iff_of_true (allTrue_send_of_forall (by simp)) fun _ a ha hid hopen => ?_
    obtain ⟨r, hsome⟩ := MatchingEngine.exists_amendOrder ha hid hopen newPrice newQuantity
    cases hr.symm.trans hsome
  | some r =>
    obtain ⟨o, ho, hid, hopen, hr2, hinStep, -, htrades, ⟨as, bs, -, horders'⟩, -⟩ :=
      h.inStep.amendOrder_spec hr
    have hid' : r.2.orderId = tracked.orderId := by rw [hr2, ← hid]; rfl
    have hopen' : r.2.isOpen = true := by rw [hr2]; exact hopen
    have hlive : r.1.live tracked.orderId = r.2.remainingQty :=
      hid' ▸ live_of_mem hinStep (horders' ▸ by simp) hopen'
    have hcum : cumQty r.2 = if newQuantity.isSome then 0 else o.quantity - o.remainingQty := by
      rw [cumQty, hr2]
      cases newQuantity with
      | none => rfl
      | some q => exact sub_self q
    refine (allTrue_send_iff fun reply hreply => List.mem_singleton.mp hreply ▸ rfl).trans
      (forall_congr' fun _ => (allTrue_singleton_iff rfl rfl).trans ?_)
    show cumQty r.2 = executed r.1.trades tracked.orderId ∧
      r.2.remainingQty = r.1.live tracked.orderId ∧
        lastQtys sent (some tracked.orderId) = cumQty r.2 ↔ _
    rw [htrades, hlive, hcum]
    constructor
    · rintro ⟨hcum, -, hsum⟩ a ha hida -
      obtain rfl := h.inStep.eq_of_orderId ha ho (hida.trans hid.symm)
      exact ⟨hcum, hsum.trans hcum⟩
    · intro hsound
      obtain ⟨hcum, hsum⟩ := hsound o ho hid hopen
      exact ⟨hcum, rfl, hsum.trans hcum.symm⟩

/-- An order that is found open has an id that has been given out. -/
lemma keptBy_handleCancel (h : Kept m s.trackedOrders sent) :
    KeptBy sent (send (handleCancel symbols m s fields)) := by
  rw [handleCancel]
  cases htracked : s.tracked (getTag fields 41 []) with
  | none => exact keptBy_send h (by simp)
  | some tracked =>
    have hpost := h.post symbols (.cancel tracked.orderId)
    dsimp only
    rw [postOrder, MatchingEngine.handle] at hpost ⊢
    cases hr : m.cancelOrder tracked.orderId with
    | none =>
      rw [hr] at hpost
      exact keptBy_send hpost (by simp)
    | some result =>
      rw [hr] at hpost
      refine keptBy_send hpost fun r hr => ?_
      obtain rfl := Reply.report.inj (List.mem_singleton.mp hr)
      have hgiven := (hpost.tracked _ tracked (s.mem_trackedOrders htracked)).given
      exact Report.quiet_of_given rfl hgiven rfl (by rintro ⟨⟩)

/-- What `amend_order` returns shows what the order has shown, or a new quantity. -/
lemma Kept.tracked_amend (h : Kept m trackedOrders sent) {id : ℕ} {newPrice : Option P}
    {newQuantity : Option ℤ} {r : MatchingEngine P × Order P}
    (hr : m.amendOrder id newPrice newQuantity = some r) :
    r.2.orderId = id ∧ Kept.Tracked r.1 r.2 := by
  obtain ⟨o, ho, rfl, hopen, hr2, -, hnext, htrades, -⟩ := h.inStep.amendOrder_spec hr
  have hid : r.2.orderId = o.orderId := by rw [hr2]; rfl
  have hshows := (h.lasting.lasts o ho hopen).shows
  refine ⟨hid, ⟨hid ▸ hnext ▸ h.inStep.fresh o ho, ?_⟩⟩
  rw [htrades, hr2]
  cases newQuantity with
  | none => exact hshows
  | some q => exact fun _ => .inl (sub_self q)

lemma keptBy_amendTracked (h : Kept m s.trackedOrders sent) {origClOrdId : List Char}
    {tracked : Order P} {newPrice : Option P} {newQuantity : Option ℤ} :
    KeptBy sent (send (amendTracked symbols m s origClOrdId tracked newPrice newQuantity)) := by
  have hpost := h.post symbols (.amend tracked.orderId newPrice newQuantity)
  rw [amendTracked]
  rw [postOrder, MatchingEngine.handle] at hpost ⊢
  cases hr : m.amendOrder tracked.orderId newPrice newQuantity with
  | none =>
    rw [hr] at hpost
    exact keptBy_send hpost (by simp)
  | some result =>
    rw [hr] at hpost
    obtain ⟨hid, htracked⟩ := h.tracked_amend hr
    refine keptBy_send (hpost.track htracked origClOrdId) fun r hr => ?_
    obtain rfl := Reply.report.inj (List.mem_singleton.mp hr)
    exact Report.quiet_of_given rfl (hid ▸ htracked.given) rfl (by rintro ⟨⟩)

variable {float : List Char → Option P} {answer : (MatchingEngine P × State P) × List (Reply P)}

/-- An amend whose numbers cannot be read is not reported on. -/
lemma handleAmend_iff (h : Kept m s.trackedOrders sent) :
    (∀ answer ∈ handleAmend float symbols m s fields, AllTrue sent (send answer)) ↔
      ∀ tracked ∈ s.tracked (getTag fields 41 []), ∀ newPrice ∈ number? float fields 44,
        ∀ newQuantity ∈ number? PyString.int fields 38,
          s.encodes (getTag fields 41 [] ++ symbolName symbols tracked.symbolIdx ++ sideFix tracked)
            = true → AmendSound m sent tracked newQuantity := by
  rw [handleAmend]
  cases s.tracked (getTag fields 41 []) with
  | none =>
    refine iff_of_true ?_ (by simp)
    rintro answer ⟨⟩
    exact allTrue_send_of_forall (by simp)
  | some tracked =>
    simp only [Option.mem_some_iff, forall_eq']
    cases number? float fields 44 with
    | none => simp
    | some newPrice =>
      simp only [Option.mem_some_iff, forall_eq', Option.bind_some]
      cases number? PyString.int fields 38 with
      | none => simp
      | some newQuantity =>
        simp only [Option.map_some, Option.mem_some_iff, forall_eq']
        exact amendTracked_iff h

lemma keptBy_handleAmend (h : Kept m s.trackedOrders sent)
    (hanswer : answer ∈ handleAmend float symbols m s fields) : KeptBy sent (send answer) := by
  rw [handleAmend] at hanswer
  cases htracked : s.tracked (getTag fields 41 []) with
  | none =>
    rw [htracked] at hanswer
    cases hanswer
    exact keptBy_send h (by simp)
  | some tracked =>
    rw [htracked] at hanswer
    obtain ⟨newPrice, -, hanswer⟩ := Option.bind_eq_some_iff.mp hanswer
    obtain ⟨newQuantity, -, rfl⟩ := Option.map_eq_some_iff.mp hanswer
    exact keptBy_amendTracked h

/-! ### Runs -/

/-- The reports of one message. -/
lemma process_iff (h : Kept m s.trackedOrders sent) :
    (∀ answer ∈ process float symbols m s fields, AllTrue sent (send answer)) ↔
      MessageSound symbols m sent float s fields := by
  rw [process, MessageSound]
  generalize getTag fields 35 [] = msgType
  split
  case h_5 =>
    simp only [Option.mem_def, Option.map_eq_some_iff, forall_exists_index, and_imp,
      forall_apply_eq_imp_iff₂]
    exact forall₂_congr fun o _ => handleNewOrder_iff h
  case h_6 =>
    simp only [Option.mem_some_iff, forall_eq']
    exact handleCancel_iff h
  case h_7 => exact handleAmend_iff h
  all_goals
    simp only [Option.mem_some_iff, forall_eq']
    exact iff_of_true (allTrue_send_of_forall (by simp)) trivial

lemma keptBy_process (h : Kept m s.trackedOrders sent)
    (hanswer : answer ∈ process float symbols m s fields) : KeptBy sent (send answer) := by
  rw [process] at hanswer
  split at hanswer
  case h_5 =>
    obtain ⟨o, -, rfl⟩ := Option.map_eq_some_iff.mp hanswer
    exact keptBy_handleNewOrder h
  case h_6 =>
    cases hanswer
    exact keptBy_handleCancel h
  case h_7 => exact keptBy_handleAmend h hanswer
  all_goals
    cases hanswer
    exact keptBy_send h (by simp)

variable {w : MatchingEngine P × State P}

lemma keptBy_step (h : Kept w.1 w.2.trackedOrders sent) (input : Input P) :
    KeptBy sent (step float symbols w input) := by
  have hquiet : Kept w.1 w.2.trackedOrders (sent ++ []) := by rwa [List.append_nil]
  cases input with
  | recv data =>
    rw [step]
    split
    · split <;> exact hquiet
    · exact hquiet
  | next =>
    rw [step]
    split
    · exact hquiet
    · rename_i msgRaw buf hcut
      split
      · rename_i answer hanswer
        obtain ⟨fields, -, hanswer⟩ := Option.bind_eq_some_iff.mp hanswer
        exact keptBy_process (s := { w.2 with buf := buf }) h hanswer
      · exact hquiet
  | other request =>
    have hpost := h.post symbols request
    rw [← List.append_nil sent] at hpost
    exact hpost

/-- The reports of one step. -/
lemma step_iff (h : Kept w.1 w.2.trackedOrders sent) (input : Input P) :
    AllTrue sent (step float symbols w input) ↔ Sound symbols float w sent input := by
  cases input with
  | recv data =>
    refine iff_of_true (allTrue_of_forall ?_) trivial
    rw [step]
    split
    · split <;> simp
    · simp
  | next =>
    rw [step, Sound]
    cases hcut : Framing.cut checkSumTag soh w.2.buf with
    | none => exact iff_of_true (allTrue_of_forall (by simp)) (by simp)
    | some cut =>
      obtain ⟨msgRaw, buf⟩ := cut
      dsimp only
      have hnext (fields : TagMap) :
          (∀ answer ∈ process float symbols w.1 { w.2 with buf := buf } fields,
            AllTrue sent (send answer)) ↔ MessageSound symbols w.1 sent float w.2 fields :=
        process_iff (s := { w.2 with buf := buf }) h
      cases hparse : FixServer.parseFix msgRaw with
      | none =>
        refine iff_of_true (allTrue_of_forall (by simp)) ?_
        rintro _ _ ⟨⟩ fields hfields
        cases hparse.symm.trans hfields
      | some fields =>
        trans MessageSound symbols w.1 sent float w.2 fields
        · refine Iff.trans ?_ (hnext fields)
          rw [Option.bind_some]
          cases process float symbols w.1 { w.2 with buf := buf } fields with
          | none => exact iff_of_true (allTrue_of_forall (by simp)) (by simp)
          | some answer => simp
        · refine ⟨?_, fun hsound => hsound _ _ rfl fields hparse⟩
          rintro hsound _ _ ⟨⟩ fields' hfields
          obtain rfl := Option.some.inj (hparse.symm.trans hfields)
          exact hsound
  | other request => exact iff_of_true (allTrue_of_forall (by simp [step])) trivial

end

/-- The bytes of a message with these fields. -/
def messageOf (fields : List (ℕ × List Char)) : List Char :=
  fieldsText (fields ++ [(10, "000".toList)])

/-- A bid for 9 that rests, an offer of 4 that takes from it, and a cancel of the bid. -/
def cancelAfterFill : List (Input ℤ) :=
  [.recv (messageOf [(35, ['D']), (11, ['A']), (55, ['X']), (38, ['9']), (44, ['5'])]), .next,
    .other (.submit 1 ⟨.sell, .limit, 5, 4, .day, []⟩),
    .recv (messageOf [(35, ['F']), (41, ['A'])]), .next]

end EuNEx.Dashboard.FIXSession
