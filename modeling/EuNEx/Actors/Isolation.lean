import EuNEx.Actors.OEG
import EuNEx.Book.Flat

/-!
# Orders of other sessions

A cancel and an amendment carry the session they come from, but neither the gateway nor the
matching core compares it with the session that the order was entered under. Whoever names a live
order takes it off the book.
-/

namespace EuNEx

namespace MECoreEvent

/-- The order that a cancel or an amendment names. -/
def orderId? : MECoreEvent → Option ℕ
  | .newOrder _ => none
  | .cancelOrder event => some event.orderId
  | .modifyOrder event => some event.orderId

/-- A cancel or an amendment of a session other than `s`. -/
def Foreign (s : ℕ) : MECoreEvent → Prop
  | .newOrder _ => False
  | .cancelOrder event => event.sessionId ≠ s
  | .modifyOrder event => event.sessionId ≠ s

/-- The answer to a cancel or an amendment that is turned down. -/
def rejection : MECoreEvent → List MECoreOutput
  | .newOrder _ => []
  | .cancelOrder event =>
    [.refusal ⟨MECoreActor.reject event.orderId event.origClOrdId, event.sessionId⟩]
  | .modifyOrder event =>
    [.refusal ⟨MECoreActor.reject event.orderId event.origClOrdId, event.sessionId⟩]

end MECoreEvent

namespace Book

variable {b : Book} {hist : List BookEvent} {id : ℕ} {c : Cancel} {o : Order}

/-- Of the live orders, a cancel takes the one it names. -/
lemma Removes.mem_left_iff (hc : b.Removes id c) (h : b.Sound hist) (ho : o ∈ b.live) :
    o ∈ c.book.live ↔ o.orderId ≠ id := by
  constructor
  · exact hc.ne_of_mem h.laws.ids.nodup o
  · intro hid
    rw [hc.live] at ho
    rcases Multiset.mem_cons.mp ho with rfl | ho
    · exact absurd hc.orderId hid
    · exact ho

/-- And so does an amendment. -/
lemma Removes.mem_replaced_iff (hc : b.Removes id c) (h : b.Sound hist) (ho : o ∈ b.live)
    (newPrice : ℤ) (newQty : ℕ) : o ∈ (c.replaced newPrice newQty).book.live ↔ o.orderId ≠ id := by
  rw [← hc.mem_left_iff h ho, Cancel.replaced, live_insertResting, Multiset.mem_cons]
  constructor
  · rintro (rfl | hleft)
    · have hlt : (c.book.replacement c.report newPrice newQty).orderId < b.nextOrderId :=
        h.laws.ids.live_lt ho
      exact absurd hc.nextOrderId hlt.ne
    · exact hleft
  · exact Or.inr

end Book

namespace MECoreActor

open MECoreEvent

variable {a : MECoreActor} {h : List MECoreOutput} {hist : List BookEvent} {s : ℕ}
  {request : MECoreEvent} {o : Order}

/-- A request comes in at the gateway, which forwards those for the symbol of the core to it. -/
def receive (a : MECoreActor) (request : MECoreEvent) : MECoreActor × List MECoreOutput :=
  if request.symbolIdx = a.book.symbolIdx then a.step (OEGActor.forward request) else (a, [])

/-- The request is about the order. -/
def Names (a : MECoreActor) (request : MECoreEvent) (id : ℕ) : Prop :=
  request.symbolIdx = a.book.symbolIdx ∧ request.orderId? = some id

/-- A request of another session leaves the orders alone that were entered by `s`, and is rejected
if it names one. -/
def Spares (s : ℕ) : MECoreActor × List MECoreOutput → MECoreEvent → Prop
  | (a, h), request => request.Foreign s → ∀ o ∈ a.book.live, .entered o.orderId s ∈ h →
      o ∈ (a.receive request).1.book.live ∧
        (a.Names request o.orderId → (a.receive request).2 = request.rejection)

/-- A request of another session names no live order that was entered by `s`. -/
def Minds (s : ℕ) : MECoreActor × List MECoreOutput → MECoreEvent → Prop
  | (a, h), request => request.Foreign s → ∀ o ∈ a.book.live, .entered o.orderId s ∈ h →
      ¬a.Names request o.orderId

/-- Of the live orders, a cancel or an amendment takes the one it names. -/
lemma mem_receive_iff (hb : a.book.Sound hist) (hforeign : request.Foreign s)
    (ho : o ∈ a.book.live) :
    o ∈ (a.receive request).1.book.live ↔ ¬a.Names request o.orderId := by
  by_cases hsymbol : request.symbolIdx = a.book.symbolIdx
  · rw [receive, if_pos hsymbol, Names, and_iff_right hsymbol]
    cases request with
    | newOrder event => exact hforeign.elim
    | cancelOrder event =>
      show o ∈ (a.step (.cancelOrder event)).1.book.live ↔ ¬some event.orderId = some o.orderId
      rw [Option.some.injEq, eq_comm]
      cases hc : a.book.cancelOrder event.orderId with
      | none =>
        rw [step_cancelOrder_none hc]
        exact iff_of_true ho ((Book.cancelOrder_eq_none_iff hb.shape).mp hc o ho)
      | some c =>
        rw [step_cancelOrder_some hc]
        exact (Book.removes_of_cancelOrder hb.shape hc).mem_left_iff hb ho
    | modifyOrder event =>
      show o ∈ (a.step (.modifyOrder event)).1.book.live ↔ ¬some event.orderId = some o.orderId
      rw [Option.some.injEq, eq_comm]
      cases hc : a.book.cancelOrder event.orderId with
      | none =>
        rw [step_modifyOrder_none hc]
        exact iff_of_true ho ((Book.cancelOrder_eq_none_iff hb.shape).mp hc o ho)
      | some c =>
        obtain ⟨r, -, hstep⟩ := step_modifyOrder_some hc
        rw [hstep]
        exact (Book.removes_of_cancelOrder hb.shape hc).mem_replaced_iff hb ho _ _
  · rw [receive, if_neg hsymbol, Names]
    exact iff_of_true ho fun hnames => hsymbol hnames.1

lemma spares_iff (hs : a.Sound h) : Spares s (a, h) request ↔ Minds s (a, h) request := by
  obtain ⟨hist, hb, -, -⟩ := hs
  constructor
  · intro hspares hforeign o ho howned
    exact (mem_receive_iff hb hforeign ho).mp (hspares hforeign o ho howned).1
  · intro hminds hforeign o ho howned
    have hnot := hminds hforeign o ho howned
    exact ⟨(mem_receive_iff hb hforeign ho).mpr hnot, fun hnames => absurd hnames hnot⟩

lemma Sound.receive (hs : a.Sound h) (request : MECoreEvent) :
    (a.receive request).1.Sound (h ++ (a.receive request).2) := by
  rw [MECoreActor.receive]
  split
  · exact hs.step _
  · rwa [List.append_nil]

/-- Whatever other sessions cancel or amend, the orders that were entered by `s` are left alone. -/
def Isolated (symbolIdx : ℕ) (hasClearingHouse : Bool) (s : ℕ) (requests : List MECoreEvent) :
    Prop :=
  Machine.Along (Machine.recording receive) (Spares s) (new symbolIdx hasClearingHouse, []) requests

/-- In every run, whatever other sessions cancel or amend in it, the orders that were entered by `s`
are left alone exactly if no request of another session names one of them while it is live. -/
theorem run_isolated_iff (symbolIdx : ℕ) (hasClearingHouse : Bool) (s : ℕ)
    (requests : List MECoreEvent) : Isolated symbolIdx hasClearingHouse s requests ↔
      Machine.Along (Machine.recording receive) (Minds s) (new symbolIdx hasClearingHouse, [])
        requests :=
  Machine.along_congr (I := fun state => state.1.Sound state.2)
    (fun _ request hs => hs.receive request) (fun _ _ hs => spares_iff hs) (Sound.new _ _)

/-- Session 2 cancels the order of session 1. -/
theorem not_isolated_cancel : ¬∀ (symbolIdx : ℕ) (hasClearingHouse : Bool) (s : ℕ)
    (requests : List MECoreEvent), Isolated symbolIdx hasClearingHouse s requests := by
  intro h
  have hrun := h 1 false 1
    [.newOrder ⟨1, 1, .buy, .limit, .day, 10, 5, 1, 0⟩, .cancelOrder ⟨1, 1, 1, 2⟩]
  have hspares := hrun.2.1 (show (2 : ℕ) ≠ 1 by decide)
    ⟨1, 1, 1, .buy, .limit, .day, 10, 5, 5, 1, .new, 0⟩ (by decide) (by decide)
  exact absurd hspares.1 (by decide)

end MECoreActor

end EuNEx
