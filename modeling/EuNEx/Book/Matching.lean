import EuNEx.Book.Levels
import EuNEx.Ledger.Basic
import Mathlib.Algebra.Order.Group.Multiset

/-!
# The fill loops

What one turn of a fill loop does, once for `matchBuy`, `matchSell` and `uncross`, and the loop
rule for the nested loop over one side of the book. A turn is a few rules of the ledger: a trade,
the report of the resting order, and in an auction the report of the incoming order.
-/

namespace EuNEx

open Ledger (Steps)

/-- The price `p` on side `s` is within the limit of an order that trades against that side. -/
def Order.Reaches (o : Order) (s : Side) (p : ℤ) : Prop :=
  o.ordType ≠ .market → ¬s.before o.price p

instance (o : Order) (s : Side) (p : ℤ) : Decidable (o.Reaches s p) :=
  inferInstanceAs (Decidable (_ → _))

lemma Order.reaches_price (o : Order) (s : Side) : o.Reaches s o.price :=
  fun _ => irrefl (r := s.before) o.price

lemma Order.Shrunk.reaches {o o' : Order} (h : o.Shrunk o') (s : Side) (p : ℤ) :
    o'.Reaches s p ↔ o.Reaches s p := by
  simp only [Order.Reaches, h.ordType, h.price]

lemma coe_middle (done todo : List Order) (o : Order) :
    (↑(done ++ o :: todo) : Multiset Order) = o ::ₘ ↑(done ++ todo) :=
  Multiset.coe_eq_coe.mpr List.perm_middle

lemma coe_left (done left todo : List Order) :
    (↑(done ++ (left ++ todo)) : Multiset Order) = ↑left + ↑(done ++ todo) :=
  Multiset.coe_eq_coe.mpr (List.perm_append_comm_assoc _ _ _)

namespace FillLoop

variable {loop : FillLoop} {p : ℤ} {m m' : Matching} {o : Order} {left : Option Order}

lemma visit_eq_none : loop.visit p m o = none ↔ m.incoming.remainingQty = 0 := by
  rw [visit]
  split <;> simp_all

/-- What a turn of the loop does. -/
structure Turn (loop : FillLoop) (p : ℤ) (m m' : Matching) (o : Order) (left : Option Order)
    (traded : ℕ) : Prop where
  open' : m.incoming.remainingQty ≠ 0
  qty_eq : traded = min m.incoming.remainingQty o.remainingQty
  incoming : m'.incoming = Ledger.fill m.incoming traded
  left : left = if o.remainingQty - traded = 0 then none else some (Ledger.fill o traded)
  book : m'.book = { m.book with
    nextTradeId := m.book.nextTradeId + 1
    lastTradePrice := p
    orderIndex := if o.remainingQty - traded = 0 then m.book.orderIndex.erase o.orderId
      else m.book.orderIndex }
  log : m'.log = m.log ++ [.trade (loop.trade m.book m.incoming o p traded),
      .exec ((Ledger.fill o traded).fillReport p traded
        (loop.trade m.book m.incoming o p traded).tradeId)]
    ++ if loop.reportsIncoming then [.exec ((Ledger.fill m.incoming traded).fillReport p traded
        (loop.trade m.book m.incoming o p traded).tradeId)] else []

theorem turn_of_visit (h : loop.visit p m o = some (m', left)) :
    loop.Turn p m m' o left (min m.incoming.remainingQty o.remainingQty) := by
  rw [visit] at h
  split at h
  · cases h
  · rename_i hopen
    cases h
    exact ⟨hopen, rfl, rfl, rfl, rfl, rfl⟩

namespace Turn

variable {traded : ℕ}

/-- If the resting order is kept, the incoming order is filled. -/
lemma incoming_filled (h : loop.Turn p m m' o left traded) (hleft : left ≠ none) :
    m'.incoming.remainingQty = 0 := by
  have hne : o.remainingQty - traded ≠ 0 := fun hz => hleft (by rw [h.left, if_pos hz])
  have := h.qty_eq
  rw [h.incoming]
  show m.incoming.remainingQty - traded = 0
  omega

lemma shrunk {o' : Order} (h : loop.Turn p m m' o (some o') traded) : o.Shrunk o' := by
  have hleft := h.left
  split at hleft
  · cases hleft
  · cases hleft
    exact ⟨rfl, Nat.sub_le _ _⟩

lemma pos {o' : Order} (h : loop.Turn p m m' o (some o') traded) : 0 < o'.remainingQty := by
  have hleft := h.left
  split at hleft
  · cases hleft
  · rename_i hne
    cases hleft
    exact Nat.pos_of_ne_zero hne

lemma incoming_shrunk (h : loop.Turn p m m' o left traded) : m.incoming.Shrunk m'.incoming := by
  rw [h.incoming]
  exact ⟨rfl, Nat.sub_le _ _⟩

end Turn

/-! ### Turns as rules of the ledger -/

/-- The trade that the loop writes down is between the two orders, the incoming one coming from
the side opposite to the side `s` swept, and has the next trade id. -/
structure Fair (loop : FillLoop) (s : Side) : Prop where
  party : ∀ b incoming o p traded,
    (loop.trade b incoming o p traded).buyOrderId = incoming.orderId ∨
      (loop.trade b incoming o p traded).sellOrderId = incoming.orderId
  tradeId : ∀ b incoming o p traded, (loop.trade b incoming o p traded).tradeId = b.nextTradeId
  symbolIdx : ∀ b incoming o p traded, (loop.trade b incoming o p traded).symbolIdx = b.symbolIdx
  price : ∀ b incoming o p traded, (loop.trade b incoming o p traded).price = p
  quantity : ∀ b incoming o p traded, (loop.trade b incoming o p traded).quantity = traded
  between : ∀ b (incoming o : Order) p traded, incoming.side = s.opposite → o.side = s →
    incoming.Reaches s p → o.Reaches s.opposite p →
    (s = .sell → (loop.trade b incoming o p traded).Between incoming o) ∧
      (s = .buy → (loop.trade b incoming o p traded).Between o incoming)

lemma matchBuy_fair : Fair matchBuy .sell where
  party _ _ _ _ _ := Or.inl rfl
  tradeId _ _ _ _ _ := rfl
  symbolIdx _ _ _ _ _ := rfl
  price _ _ _ _ _ := rfl
  quantity _ _ _ _ _ := rfl
  between _ _ _ _ _ hi ho hai hao := ⟨fun _ => ⟨rfl, rfl, rfl, rfl, rfl, rfl, hi, ho,
    fun hl => not_lt.mp (hai (by simp [hl])), fun hl => not_lt.mp (hao (by simp [hl]))⟩, nofun⟩

lemma matchSell_fair : Fair matchSell .buy where
  party _ _ _ _ _ := Or.inr rfl
  tradeId _ _ _ _ _ := rfl
  symbolIdx _ _ _ _ _ := rfl
  price _ _ _ _ _ := rfl
  quantity _ _ _ _ _ := rfl
  between _ _ _ _ _ hi ho hai hao := ⟨nofun, fun _ => ⟨rfl, rfl, rfl, rfl, rfl, rfl, ho, hi,
    fun hl => not_lt.mp (hao (by simp [hl])), fun hl => not_lt.mp (hai (by simp [hl]))⟩⟩

lemma uncross_fair : Fair uncross .buy where
  party _ _ _ _ _ := Or.inr rfl
  tradeId _ _ _ _ _ := rfl
  symbolIdx _ _ _ _ _ := rfl
  price _ _ _ _ _ := rfl
  quantity _ _ _ _ _ := rfl
  between _ _ _ _ _ hi ho hai hao := ⟨nofun, fun _ => ⟨rfl, rfl, rfl, rfl, rfl, rfl, ho, hi,
    fun hl => not_lt.mp (hao (by simp [hl])), fun hl => not_lt.mp (hai (by simp [hl]))⟩⟩

end FillLoop

/-- The ledger of a book in the middle of an operation, `hist` being the history before it. -/
def Outcome.ledger (out : Outcome) (live : Multiset Order) (hist : List BookEvent) : Ledger :=
  ⟨live, out.book.nextOrderId, out.book.nextTradeId, out.book.lastTradePrice, hist ++ out.log⟩

/-- The fill report of a live order, after which it stays live or is done. -/
lemma Ledger.fillReport_steps (o : Order) (rest : Multiset Order) (nextOrderId nextTradeId : ℕ)
    (lastTradePrice : ℤ) (log : List BookEvent) (p : ℤ) (traded tradeId : ℕ) :
    Steps ⟨o ::ₘ rest, nextOrderId, nextTradeId, lastTradePrice, log⟩
      ⟨↑(if o.remainingQty = 0 then none else some o).toList + rest, nextOrderId, nextTradeId,
        lastTradePrice, log ++ [.exec (o.fillReport p traded tradeId)]⟩ := by
  apply Relation.ReflTransGen.single
  by_cases hz : o.remainingQty = 0
  · have h := Step.filled (l := ⟨o ::ₘ rest, nextOrderId, nextTradeId, lastTradePrice, log⟩) o rest
      (o.fillReport p traded tradeId) rfl ⟨rfl, rfl, rfl⟩ (by simp [Order.fillReport, hz]) hz
    simpa [hz] using h
  · have h := Step.report (l := ⟨o ::ₘ rest, nextOrderId, nextTradeId, lastTradePrice, log⟩) o rest
      o.status (o.fillReport p traded tradeId) rfl ⟨rfl, rfl, rfl⟩
      (by simp [Order.fillReport, hz, OrderStatus.isFinal]) rfl
    simpa [hz] using h

namespace FillLoop

variable {loop : FillLoop} {p : ℤ} {m m' : Matching} {o : Order} {left : Option Order}

/-- The incoming order as the ledger sees it: where it gets a report for each fill, it is done
with the report that says it is filled. -/
def inHand (loop : FillLoop) (o : Order) : Multiset Order :=
  if loop.reportsIncoming ∧ o.remainingQty = 0 then 0 else {o}

lemma inHand_of_reports (hrep : loop.reportsIncoming = true) (o : Order) :
    loop.inHand o = ↑(if o.remainingQty = 0 then none else some o : Option Order).toList := by
  rw [inHand]
  by_cases hz : o.remainingQty = 0 <;> simp [hrep, hz]

/-- A turn is a few rules of the ledger. -/
theorem Turn.steps {s : Side} {traded : ℕ} (h : loop.Turn p m m' o left traded)
    (hfair : loop.Fair s) (hi : m.incoming.side = s.opposite) (ho : o.side = s)
    (hai : m.incoming.Reaches s p) (hao : o.Reaches s.opposite p)
    (hie : m.incoming.ordType.isStop = false) (hoe : o.ordType.isStop = false)
    (rest : Multiset Order) (hist : List BookEvent) :
    Steps (m.ledger (loop.inHand m.incoming + (o ::ₘ rest)) hist)
      (m'.ledger (loop.inHand m'.incoming + (↑left.toList + rest)) hist) := by
  have hopen : loop.inHand m.incoming = {m.incoming} := by simp [inHand, h.open']
  have hbetween := hfair.between m.book m.incoming o p traded hi ho hai hao
  have hqty := hfair.quantity m.book m.incoming o p traded
  have hprice := hfair.price m.book m.incoming o p traded
  have hid := hfair.tradeId m.book m.incoming o p traded
  have hlog := h.log
  set t := loop.trade m.book m.incoming o p traded with ht
  have hle : traded ≤ m.incoming.remainingQty ∧ traded ≤ o.remainingQty := by
    rw [h.qty_eq]
    exact ⟨min_le_left _ _, min_le_right _ _⟩
  -- the trade
  have htrade : Steps (m.ledger (loop.inHand m.incoming + (o ::ₘ rest)) hist)
      ⟨Ledger.fill o traded ::ₘ (Ledger.fill m.incoming traded ::ₘ rest), m.book.nextOrderId,
        m.book.nextTradeId + 1, p, hist ++ m.log ++ [.trade t]⟩ := by
    apply Relation.ReflTransGen.single
    rw [hopen]
    cases s with
    | sell =>
      have hstep := Ledger.Step.trade (l := m.ledger (m.incoming ::ₘ o ::ₘ rest) hist) m.incoming o
        rest t rfl (hbetween.1 rfl) hie hoe hid (hqty ▸ hle.1) (hqty ▸ hle.2)
      rw [hqty, hprice, Multiset.cons_swap (Ledger.fill m.incoming traded)] at hstep
      exact hstep
    | buy =>
      have hstep := Ledger.Step.trade (l := m.ledger (m.incoming ::ₘ o ::ₘ rest) hist) o m.incoming
        rest t (Multiset.cons_swap _ _ _) (hbetween.2 rfl) hoe hie hid (hqty ▸ hle.2) (hqty ▸ hle.1)
      rw [hqty, hprice] at hstep
      exact hstep
  -- the report of the resting order
  have hresting := Ledger.fillReport_steps (Ledger.fill o traded)
    (Ledger.fill m.incoming traded ::ₘ rest) m.book.nextOrderId (m.book.nextTradeId + 1) p
    (hist ++ m.log ++ [.trade t]) p traded t.tradeId
  rw [← show left = if (Ledger.fill o traded).remainingQty = 0 then none
    else some (Ledger.fill o traded) from h.left, Multiset.add_cons] at hresting
  refine htrade.trans (hresting.trans ?_)
  rw [show m'.ledger (loop.inHand m'.incoming + (↑left.toList + rest)) hist
    = ⟨loop.inHand (Ledger.fill m.incoming traded) + (↑left.toList + rest), m.book.nextOrderId,
        m.book.nextTradeId + 1, p, hist ++ m'.log⟩ by
    simp only [Outcome.ledger, h.book, h.incoming], hlog]
  rcases hrep : loop.reportsIncoming with _ | _
  · have hhand : loop.inHand (Ledger.fill m.incoming traded) = {Ledger.fill m.incoming traded} := by
      simp [inHand, hrep]
    rw [hhand]
    simpa using Relation.ReflTransGen.refl
  · -- the report of the incoming order
    have hincoming := Ledger.fillReport_steps (Ledger.fill m.incoming traded) (↑left.toList + rest)
      m.book.nextOrderId (m.book.nextTradeId + 1) p (hist ++ m.log ++ [.trade t] ++
        [.exec ((Ledger.fill o traded).fillReport p traded t.tradeId)]) p traded t.tradeId
    rw [← inHand_of_reports hrep] at hincoming
    simpa using hincoming

/-! ### The nested loop over one side -/

/-- The condition of the outer loop: it goes on while the incoming order has something left and
the level is within reach, which does not depend on quantities. -/
structure Stops (stop : Matching → ℤ → Bool) (reach : Order → ℤ → Prop) : Prop where
  iff : ∀ m p, stop m p = false ↔ m.incoming.remainingQty ≠ 0 ∧ reach m.incoming p
  shrunk : ∀ {o o' : Order} p, o.Shrunk o' → (reach o' p ↔ reach o p)

variable {s : Side} {levels : Levels s} {stop : Matching → ℤ → Bool} {reach : Order → ℤ → Prop}

/-- The nested loop over the levels, trading at `tradePrice` of the price of the level. -/
abbrev fill (loop : FillLoop) (stop : Matching → ℤ → Bool) (tradePrice : ℤ → ℤ) (m : Matching)
    (levels : Levels s) : Matching × Levels s :=
  levels.sweep stop (fun p => loop.visit (tradePrice p)) m

variable (loop) (m) (tradePrice : ℤ → ℤ)

/-- The nested loop is the flat loop over the resting orders. -/
lemma fill_flat (hOK : levels.OK) (hstop : Stops stop reach) :
    Sweep.sweep (Sweep.visitFlat Order.price stop fun p => loop.visit (tradePrice p)) m levels.elems
      = ((loop.fill stop tradePrice m levels).1, (loop.fill stop tradePrice m levels).2.elems) := by
  apply hOK.sweep_flat
  · intro p st o hv p'
    rcases hs : stop st p' with _ | _
    · exact absurd (visit_eq_none.mp hv) ((hstop.iff st p').mp hs).1
    · rfl
  · intro p st o st' left hgo hv hs o'
    have hreach := (hstop.shrunk p (turn_of_visit hv).incoming_shrunk).mpr
      ((hstop.iff st p).mp hgo).2
    apply visit_eq_none.mpr
    by_contra hne
    simp [(hstop.iff st' p).mpr ⟨hne, hreach⟩] at hs

/-- The loop rule: `P` speaks of the state, the orders passed and the orders still to come. The
loop ends with the incoming order filled or the next level out of reach. -/
theorem fill_rule (hOK : levels.OK) (hstop : Stops stop reach)
    {P : Matching → List Order → List Order → Prop}
    (turn : ∀ m done o todo m' left traded, P m done (o :: todo) → reach m.incoming o.price →
      loop.Turn (tradePrice o.price) m m' o left traded → P m' (done ++ left.toList) todo)
    (h : P m [] levels.elems) :
    ∃ done todo, (loop.fill stop tradePrice m levels).2.elems = done ++ todo ∧
      P (loop.fill stop tradePrice m levels).1 done todo ∧
      ∀ o ∈ todo.head?,
        (loop.fill stop tradePrice m levels).1.incoming.remainingQty ≠ 0 →
        ¬reach (loop.fill stop tradePrice m levels).1.incoming o.price := by
  have hrule := Sweep.sweep_rule
    (Sweep.visitFlat Order.price stop fun p => loop.visit (tradePrice p)) (P := P)
    (fun m done o todo m' left hP hv => by
      rw [Sweep.visitFlat] at hv
      split at hv
      · cases hv
      · rename_i hgo
        exact turn m done o todo m' left _ hP ((hstop.iff m o.price).mp (by simpa using hgo)).2
          (turn_of_visit hv)) h
  rw [fill_flat loop m tradePrice hOK hstop] at hrule
  obtain ⟨done, todo, heq, hP, hexit⟩ := hrule
  refine ⟨done, todo, heq, hP, fun o ho hne hreach => ?_⟩
  have hv := hexit o ho
  rw [Sweep.visitFlat, (hstop.iff _ o.price).mpr ⟨hne, hreach⟩] at hv
  exact hne (visit_eq_none.mp (by simpa using hv))

/-- The loop rule for an invariant of the state and of the resting orders as they stand. -/
theorem fill_invariant (hOK : levels.OK) (hstop : Stops stop reach)
    {P : Matching → List Order → Prop}
    (turn : ∀ m done o todo m' left traded, P m (done ++ o :: todo) → reach m.incoming o.price →
      loop.Turn (tradePrice o.price) m m' o left traded → P m' (done ++ (left.toList ++ todo)))
    (h : P m levels.elems) :
    P (loop.fill stop tradePrice m levels).1
      (loop.fill stop tradePrice m levels).2.elems := by
  obtain ⟨done, todo, heq, hP, -⟩ := fill_rule loop m tradePrice hOK hstop
    (P := fun m done todo => P m (done ++ todo))
    (fun m done o todo m' left traded hP hr ht => by
      simpa using turn m done o todo m' left traded hP hr ht) h
  rw [heq]
  exact hP

lemma fill_ok (stop : Matching → ℤ → Bool) (hOK : levels.OK) :
    (loop.fill stop tradePrice m levels).2.OK :=
  hOK.sweep fun _ _ _ _ _ hv => (turn_of_visit hv).shrunk

/-- Whatever the levels, filling only shrinks the incoming order. -/
lemma fill_shrunk : m.incoming.Shrunk (loop.fill stop tradePrice m levels).1.incoming := by
  refine (Sweep.sweep_forall (I := fun m' : Matching => m.incoming.Shrunk m'.incoming)
    (Q := fun _ => True) (fun m' level m'' left hI _ hv => ?_) (.refl _) (by simp)).1
  obtain ⟨-, rfl, -⟩ := Sweep.visitGroup_eq_some hv
  refine ⟨(Sweep.sweep_forall (I := fun m' : Matching => m.incoming.Shrunk m'.incoming)
    (Q := fun _ => True) (fun m₁ o m₂ left hI _ hv => ?_) hI (by simp)).1, by simp⟩
  exact ⟨hI.trans (turn_of_visit hv).incoming_shrunk, by simp⟩

variable {loop m}

/-- What a fill loop does to the state and to the orders it passes over, as far as the book is
concerned: counters, last price and index move, quantities shrink, and orders disappear. -/
structure Fills (m : Matching) (orders : List Order) (m' : Matching) (orders' : List Order) :
    Prop where
  frame : m'.book = { m.book with
    nextTradeId := m'.book.nextTradeId
    lastTradePrice := m'.book.lastTradePrice
    orderIndex := m'.book.orderIndex }
  incoming : m.incoming.Shrunk m'.incoming
  resting : ∀ o' ∈ orders', ∃ o ∈ orders, o.Shrunk o' ∧ (o' = o ∨ 0 < o'.remainingQty)
  indexed : ∀ others, Indexed m.book.orderIndex (↑orders + others) →
    Indexed m'.book.orderIndex (↑orders' + others)

namespace Fills

variable {m'' : Matching} {orders done todo : List Order} {traded : ℕ}

lemma refl (m : Matching) (orders : List Order) : Fills m orders m orders :=
  ⟨rfl, .refl _, fun o ho => ⟨o, ho, .refl o, Or.inl rfl⟩, fun _ h => h⟩

lemma turn (h : Fills m orders m' (done ++ o :: todo)) (ht : loop.Turn p m' m'' o left traded) :
    Fills m orders m'' (done ++ (left.toList ++ todo)) := by
  have hleft := ht.left
  refine ⟨?_, h.incoming.trans ht.incoming_shrunk, ?_, ?_⟩
  · rw [ht.book, h.frame]
  · intro o' ho'
    simp only [List.mem_append, Option.mem_toList] at ho'
    rcases ho' with ho' | rfl | ho'
    · exact h.resting o' (by simp [ho'])
    · obtain ⟨o₀, ho₀, hs, -⟩ := h.resting o (by simp)
      exact ⟨o₀, ho₀, hs.trans ht.shrunk, Or.inr ht.pos⟩
    · exact h.resting o' (by simp [ho'])
  · intro others hI
    have hI := h.indexed others hI
    rw [coe_middle, Multiset.cons_add] at hI
    rw [coe_left, ht.book]
    split at hleft
    · rename_i hz
      simpa [hleft, hz] using hI.erase
    · rename_i hz
      have hs : o.Shrunk (Ledger.fill o traded) := ⟨rfl, Nat.sub_le _ _⟩
      simp only [hleft, hz, if_false, Option.toList_some, Multiset.coe_singleton,
        Multiset.singleton_add, Multiset.cons_add]
      exact hI.shrink hs

end Fills

variable (loop m)

/-- The nested loop fills. -/
theorem fill_fills (hOK : levels.OK) (hstop : Stops stop reach) :
    Fills m levels.elems (loop.fill stop tradePrice m levels).1
      (loop.fill stop tradePrice m levels).2.elems :=
  fill_invariant loop m tradePrice hOK hstop
    (P := fun m' orders' => Fills m levels.elems m' orders')
    (fun _ _ _ _ _ _ _ h _ ht => h.turn ht) (.refl _ _)

/-- The nested loop is a sequence of rules of the ledger. -/
theorem fill_steps (hOK : levels.OK) (hstop : Stops stop reach) (hfair : loop.Fair s)
    (hside : m.incoming.side = s.opposite) (hexec : m.incoming.ordType.isStop = false)
    (hin : ∀ p, reach m.incoming p → m.incoming.Reaches s (tradePrice p))
    (hout : ∀ o ∈ levels.elems, reach m.incoming o.price →
      o.Reaches s.opposite (tradePrice o.price))
    (rest : Multiset Order) (hist : List BookEvent) :
    Steps (m.ledger (loop.inHand m.incoming + (↑levels.elems + rest)) hist)
      ((loop.fill stop tradePrice m levels).1.ledger
        (loop.inHand (loop.fill stop tradePrice m levels).1.incoming
          + (↑(loop.fill stop tradePrice m levels).2.elems + rest)) hist) := by
  refine (fill_invariant loop m tradePrice (P := fun m' orders' => Fills m levels.elems m' orders' ∧
    Steps (m.ledger (loop.inHand m.incoming + (↑levels.elems + rest)) hist)
      (m'.ledger (loop.inHand m'.incoming + (↑orders' + rest)) hist)) hOK hstop ?_
    ⟨.refl _ _, Relation.ReflTransGen.refl⟩).2
  rintro m' done o todo m'' left traded ⟨hfills, hsteps⟩ hreach ht
  refine ⟨hfills.turn ht, hsteps.trans ?_⟩
  obtain ⟨o₀, ho₀, hs, -⟩ := hfills.resting o (by simp)
  have hinc := hfills.incoming
  rw [hstop.shrunk _ hinc] at hreach
  have hstep := ht.steps hfair (hinc.side.trans hside) (hs.side.trans (hOK.side ho₀))
    ((hinc.reaches s _).mpr (hin _ hreach))
    ((hs.reaches s.opposite _).mpr (hs.price ▸ hout o₀ ho₀ (hs.price ▸ hreach)))
    (by rw [hinc.ordType, hexec]) (by rw [hs.ordType, hOK.executable ho₀])
    (↑(done ++ todo) + rest) hist
  rwa [coe_middle, coe_left, Multiset.cons_add, add_assoc (a := (↑left.toList : Multiset Order))]

/-- The exit condition: either the incoming order is filled, or all levels that are left are out
of reach. -/
theorem fill_exit (hOK : levels.OK) (hstop : Stops stop reach)
    (hmono : ∀ o p p', s.before p p' → reach o p' → reach o p) :
    (loop.fill stop tradePrice m levels).1.incoming.remainingQty = 0 ∨
      ∀ o ∈ (loop.fill stop tradePrice m levels).2.elems,
        ¬reach (loop.fill stop tradePrice m levels).1.incoming o.price := by
  obtain ⟨done, todo, heq, hdone, hexit⟩ := fill_rule loop m tradePrice hOK hstop
    (P := fun m' done _ => m'.incoming.remainingQty = 0 ∨ done = [])
    (fun m' done o todo m'' left traded hP _ ht => by
      rcases hP with hz | rfl
      · exact absurd hz ht.open'
      · cases left with
        | none => exact Or.inr rfl
        | some o' => exact Or.inl (ht.incoming_filled (by simp))) (Or.inr rfl)
  have hsorted : (loop.fill stop tradePrice m levels).2.OK :=
    fill_ok loop m tradePrice stop hOK
  rcases hdone with hz | rfl
  · exact Or.inl hz
  · by_cases hz : (loop.fill stop tradePrice m levels).1.incoming.remainingQty = 0
    · exact Or.inl hz
    · apply Or.inr
      intro o ho hreach
      have hpair := hsorted.elems_sorted
      rw [heq, List.nil_append] at ho hpair
      cases todo with
      | nil => cases ho
      | cons o₁ todo =>
        apply hexit o₁ rfl hz
        rcases List.mem_cons.mp ho with rfl | ho
        · exact hreach
        · rcases List.rel_of_pairwise_cons hpair ho with hp | hp
          · rwa [hp]
          · exact hmono _ _ _ hp hreach

end FillLoop

/-! ### What a fill loop logs -/

/-- The orders, best first, that a quantity is filled from. -/
def filledFrom : ℕ → List Order → List Order
  | _, [] => []
  | qty, o :: os => if qty = 0 then [] else o :: filledFrom (qty - o.remainingQty) os

@[simp] lemma filledFrom_zero (orders : List Order) : filledFrom 0 orders = [] := by
  cases orders <;> simp [filledFrom]

lemma filledFrom_sublist (qty : ℕ) (orders : List Order) :
    (filledFrom qty orders).Sublist orders := by
  induction orders generalizing qty with
  | nil => simp [filledFrom]
  | cons o orders ih =>
    rw [filledFrom]
    split
    · exact List.nil_sublist _
    · exact (ih _).cons_cons o

/-- The events of a fill loop that makes one report for each fill: a trade of the incoming order
under the next trade id, and the report of the resting order. -/
inductive FillLog (id symbolIdx nextTradeId : ℕ) : List Order → List BookEvent → Prop
  | nil : FillLog id symbolIdx nextTradeId [] []
  | snoc {orders : List Order} {evs : List BookEvent} (o : Order) (t : Trade) (r : ExecutionReport)
      (h : FillLog id symbolIdx nextTradeId orders evs)
      (hparty : t.buyOrderId = id ∨ t.sellOrderId = id) (hsym : t.symbolIdx = symbolIdx)
      (ht : t.tradeId = nextTradeId + orders.length) (hr : r.tradeId = t.tradeId)
      (hid : r.orderId = o.orderId) :
      FillLog id symbolIdx nextTradeId (orders ++ [o]) (evs ++ [.trade t, .exec r])

namespace FillLog

variable {id symbolIdx nextTradeId : ℕ} {orders : List Order} {evs : List BookEvent}

lemma entryIds (h : FillLog id symbolIdx nextTradeId orders evs) : entryIds evs = [] := by
  induction h with
  | nil => rfl
  | snoc o t r h hparty hsym ht hr hid ih =>
    rw [entryIds_append, ih]
    rfl

lemma trades_length (h : FillLog id symbolIdx nextTradeId orders evs) :
    (trades evs).length = orders.length := by
  induction h with
  | nil => rfl
  | snoc o t r h hparty hsym ht hr hid ih =>
    rw [trades_append, List.length_append, List.length_append, ih]
    rfl

/-- Every trade has the incoming order as a party, and the trade ids count up. -/
lemma party {t : Trade} (h : FillLog id symbolIdx nextTradeId orders evs) (ht : .trade t ∈ evs) :
    (t.buyOrderId = id ∨ t.sellOrderId = id) ∧ t.symbolIdx = symbolIdx ∧
      nextTradeId ≤ t.tradeId ∧ t.tradeId < nextTradeId + orders.length := by
  induction h with
  | nil => cases ht
  | snoc o t' r h hparty hsym hid hr hrid ih =>
    simp only [List.mem_append, List.mem_cons, reduceCtorEq, BookEvent.trade.injEq,
      List.not_mem_nil, or_false] at ht
    rw [List.length_append, List.length_singleton]
    rcases ht with ht | rfl
    · obtain ⟨hparty', hsym', hle, hlt⟩ := ih ht
      exact ⟨hparty', hsym', hle, by omega⟩
    · exact ⟨hparty, hsym, by omega, by omega⟩

/-- Every report is about a resting order that was filled, and carries a new trade id. -/
lemma report {r : ExecutionReport} (h : FillLog id symbolIdx nextTradeId orders evs)
    (hr : .exec r ∈ evs) :
    (∃ o ∈ orders, o.orderId = r.orderId) ∧ nextTradeId ≤ r.tradeId := by
  induction h with
  | nil => cases hr
  | snoc o t r' h hparty hsym ht htr hid ih =>
    simp only [List.mem_append, List.mem_cons, reduceCtorEq, BookEvent.exec.injEq, false_or,
      List.not_mem_nil, or_false] at hr
    rcases hr with hr | rfl
    · obtain ⟨⟨o', ho', hid'⟩, hle⟩ := ih hr
      exact ⟨⟨o', by simp [ho'], hid'⟩, hle⟩
    · exact ⟨⟨o, by simp, hid.symm⟩, by omega⟩

/-- Each resting order that was filled gets a report. -/
lemma told {o : Order} (h : FillLog id symbolIdx nextTradeId orders evs) (ho : o ∈ orders) :
    ∃ r, .exec r ∈ evs ∧ r.orderId = o.orderId := by
  induction h with
  | nil => cases ho
  | snoc o' t r h hparty hsym ht hr hid ih =>
    rcases List.mem_append.mp ho with ho | ho
    · obtain ⟨r', hr', hid'⟩ := ih ho
      exact ⟨r', by simp [hr'], hid'⟩
    · obtain rfl := List.mem_singleton.mp ho
      exact ⟨r, by simp, hid⟩

end FillLog

namespace FillLoop

variable (loop : FillLoop) (m : Matching) (tradePrice : ℤ → ℤ) {s : Side} {levels : Levels s}
  {stop : Matching → ℤ → Bool} {reach : Order → ℤ → Prop}

/-- The loop fills exactly the orders that the incoming quantity is filled from, of those within
reach. -/
theorem fill_log [∀ o p, Decidable (reach o p)] (hOK : levels.OK) (hstop : Stops stop reach)
    (hfair : loop.Fair s) (hrep : loop.reportsIncoming = false) :
    ∃ evs, (loop.fill stop tradePrice m levels).1.log = m.log ++ evs ∧
      FillLog m.incoming.orderId m.book.symbolIdx m.book.nextTradeId
        (filledFrom m.incoming.remainingQty
          (levels.elems.takeWhile fun o => reach m.incoming o.price)) evs := by
  obtain ⟨done, todo, heq, ⟨hinc, -, evs, filled, hlog, hfilled, hnext, hall⟩, hexit⟩ :=
    fill_rule loop m tradePrice hOK hstop
      (P := fun m' _ todo => m.incoming.Shrunk m'.incoming ∧
        m'.book.symbolIdx = m.book.symbolIdx ∧ ∃ evs filled, m'.log = m.log ++ evs ∧
        FillLog m.incoming.orderId m.book.symbolIdx m.book.nextTradeId filled evs ∧
        m'.book.nextTradeId = m.book.nextTradeId + filled.length ∧
        filledFrom m.incoming.remainingQty
            (levels.elems.takeWhile fun o => reach m.incoming o.price)
          = filled ++ filledFrom m'.incoming.remainingQty
            (todo.takeWhile fun o => reach m.incoming o.price))
      (by
        rintro m' done o todo m'' left traded ⟨hinc, hsym, evs, filled, hlog, hfilled, hnext, hall⟩
          hreach ht
        rw [hstop.shrunk _ hinc] at hreach
        have hrem : m''.incoming.remainingQty = m'.incoming.remainingQty - o.remainingQty := by
          rw [ht.incoming, ht.qty_eq]
          show m'.incoming.remainingQty - _ = _
          omega
        have hsnoc := hfilled.snoc o
          (loop.trade m'.book m'.incoming o (tradePrice o.price) traded)
          ((Ledger.fill o traded).fillReport (tradePrice o.price) traded
            (loop.trade m'.book m'.incoming o (tradePrice o.price) traded).tradeId)
          (hinc.orderId ▸ hfair.party _ _ _ _ _) ((hfair.symbolIdx _ _ _ _ _).trans hsym)
          ((hfair.tradeId _ _ _ _ _).trans hnext) rfl rfl
        refine ⟨hinc.trans ht.incoming_shrunk, by rw [ht.book]; exact hsym, _, filled ++ [o], ?_,
          hsnoc, ?_, ?_⟩
        · rw [ht.log, hlog]
          simp only [hrep, Bool.false_eq_true, if_false, List.append_nil, List.append_assoc]
        · rw [ht.book, List.length_append]
          show m'.book.nextTradeId + 1 = _
          rw [hnext, List.length_singleton, Nat.add_assoc]
        · rw [hall, List.takeWhile_cons_of_pos (by simpa using hreach), filledFrom,
            if_neg ht.open', hrem, List.append_assoc, List.singleton_append])
      ⟨.refl _, rfl, [], [], by simp, .nil, rfl, by simp⟩
  refine ⟨evs, hlog, ?_⟩
  rw [hall]
  suffices hrest : filledFrom (loop.fill stop tradePrice m levels).1.incoming.remainingQty
      (todo.takeWhile fun o => reach m.incoming o.price) = [] by simpa [hrest] using hfilled
  by_cases hz : (loop.fill stop tradePrice m levels).1.incoming.remainingQty = 0
  · rw [hz, filledFrom_zero]
  · cases todo with
    | nil => simp [filledFrom]
    | cons o todo =>
      have hout := hexit o rfl hz
      rw [hstop.shrunk _ hinc] at hout
      rw [List.takeWhile_cons_of_neg (by simpa using hout)]
      simp [filledFrom]

end FillLoop

/-! ### Matching an incoming order -/

/-- The resting orders of side `s` that an order is filled from. -/
def Order.fills (o : Order) (s : Side) (orders : List Order) : List Order :=
  filledFrom o.remainingQty (orders.takeWhile fun o' => o.Reaches s o'.price)

/-- What matching against side `s` does to the book and the incoming order. -/
structure Matching.Sweeps (s : Side) (m m' : Matching) : Prop where
  levels : (m'.book.levels s).OK
  opposite : m'.book.levels s.opposite = m.book.levels s.opposite
  stopOrders : m'.book.stopOrders = m.book.stopOrders
  symbolIdx : m'.book.symbolIdx = m.book.symbolIdx
  nextOrderId : m'.book.nextOrderId = m.book.nextOrderId
  phase : m'.book.phase = m.book.phase
  incoming : m.incoming.Shrunk m'.incoming
  resting : ∀ o' ∈ m'.book.resting s, ∃ o ∈ m.book.resting s,
    o.Shrunk o' ∧ (o' = o ∨ 0 < o'.remainingQty)
  indexed : ∀ others, Indexed m.book.orderIndex (↑(m.book.resting s) + others) →
    Indexed m'.book.orderIndex (↑(m'.book.resting s) + others)
  exit : m'.incoming.remainingQty = 0 ∨
    ∀ o ∈ m'.book.resting s, ¬m'.incoming.Reaches s o.price
  log : ∃ evs, m'.log = m.log ++ evs ∧
    FillLog m.incoming.orderId m.book.symbolIdx m.book.nextTradeId
      (m.incoming.fills s (m.book.resting s)) evs
  steps : m.incoming.side = s.opposite → m.incoming.ordType.isStop = false → ∀ rest hist,
    Steps (m.ledger ({m.incoming} + (↑(m.book.resting s) + rest)) hist)
      (m'.ledger ({m'.incoming} + (↑(m'.book.resting s) + rest)) hist)

section

variable {s : Side} {beyond : ℤ → ℤ → Bool} {loop : FillLoop} {m : Matching}

/-- The condition of the outer loop of `matchBuy` and `matchSell`. -/
lemma stops_sweepSide (hbeyond : ∀ p price, beyond p price = true ↔ s.before price p) :
    FillLoop.Stops (fun m p => m.incoming.remainingQty = 0 ||
      m.incoming.ordType ≠ .market && beyond p m.incoming.price) (fun o p => o.Reaches s p) where
  iff m p := by
    simp only [Order.Reaches, ← hbeyond, Bool.or_eq_false_iff, Bool.and_eq_false_iff,
      decide_eq_false_iff_not, Bool.not_eq_true]
    tauto
  shrunk p h := h.reaches s p

/-- A price further from the market is out of reach as well. -/
lemma Order.Reaches.mono {o : Order} {p p' : ℤ} (hp : s.before p p') (h : o.Reaches s p') :
    o.Reaches s p :=
  fun hne hbefore => h hne (trans_of s.before hbefore hp)

theorem sweepSide_sweeps (hOK : (m.book.levels s).OK)
    (hbeyond : ∀ p price, beyond p price = true ↔ s.before price p) (hfair : loop.Fair s)
    (hrep : loop.reportsIncoming = false) : m.Sweeps s (m.sweepSide s beyond loop) := by
  have hstop := stops_sweepSide hbeyond
  have hok := loop.fill_ok m id (fun m p => m.incoming.remainingQty = 0 ||
    m.incoming.ordType ≠ .market && beyond p m.incoming.price) hOK
  have hfills := loop.fill_fills m id hOK hstop
  have hexit := loop.fill_exit m id hOK hstop fun _ _ _ => Order.Reaches.mono
  have hsteps := fun hside hexec => loop.fill_steps m id hOK hstop hfair hside hexec
    (fun _ h => h) fun o _ _ => o.reaches_price s.opposite
  have hlog := loop.fill_log m id hOK hstop hfair hrep
  have hhand : ∀ o, loop.inHand o = {o} := fun o => by simp [FillLoop.inHand, hrep]
  simp only [hhand] at hsteps
  show m.Sweeps s (match loop.fill _ id m (m.book.levels s) with
    | (m', levels) => { m' with book := m'.book.setLevels s levels })
  generalize loop.fill _ id m (m.book.levels s) = r at *
  obtain ⟨m₁, levels⟩ := r
  have hframe := hfills.frame
  have hledger : ∀ live hist, (({ m₁ with book := m₁.book.setLevels s levels } : Matching).ledger
      live hist) = m₁.ledger live hist := by simp [Outcome.ledger]
  have hlevels : ∀ t, m₁.book.levels t = m.book.levels t := by
    intro t
    rw [hframe]
    cases t <;> rfl
  refine ⟨by simpa using hok, by simp [hlevels], ?_, ?_, ?_, ?_, hfills.incoming, ?_, ?_, ?_, hlog,
    ?_⟩
  · rw [Book.setLevels_stopOrders, hframe]
  · rw [Book.setLevels_symbolIdx, hframe]
  · rw [Book.setLevels_nextOrderId, hframe]
  · rw [Book.setLevels_phase, hframe]
  · simpa [Book.resting] using hfills.resting
  · simpa [Book.resting] using hfills.indexed
  · simpa using hexit
  · intro hside hexec rest hist
    simpa [Book.resting, hledger] using hsteps hside hexec rest hist

/-- Whatever the levels, matching only shrinks the incoming order. -/
lemma Matching.execute_shrunk (m : Matching) : m.incoming.Shrunk m.execute.incoming := by
  rw [Matching.execute]
  cases m.incoming.side with
  | buy => exact FillLoop.matchBuy.fill_shrunk m id
  | sell => exact FillLoop.matchSell.fill_shrunk m id

/-- `matchBuy` and `matchSell` together: match against the side opposite to the incoming order. -/
theorem execute_sweeps (hOK : ∀ s, (m.book.levels s).OK) :
    m.Sweeps m.incoming.side.opposite m.execute := by
  cases hside : m.incoming.side with
  | buy =>
    simp only [Matching.execute, hside]
    exact sweepSide_sweeps (hOK .sell) (fun _ _ => decide_eq_true_iff) FillLoop.matchBuy_fair rfl
  | sell =>
    simp only [Matching.execute, hside]
    exact sweepSide_sweeps (hOK .buy) (fun _ _ => decide_eq_true_iff) FillLoop.matchSell_fair rfl

end

end EuNEx
