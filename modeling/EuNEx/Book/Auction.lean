import EuNEx.Book.Shape

/-!
# The auction

`uncross` nests two fill loops over both sides of the book: the outer loop takes the asks up to
the auction price, and fills each of them from the bids. One turn of the outer loop is a fill loop
over the bids followed by the removal of the ask, if it is filled.
-/

namespace EuNEx

open Ledger (Steps)

namespace Book

variable {b : Book} {iop : ℤ} {out out' : Outcome} {ask : Order} {left : Option Order}

/-- The loop over the bids for one ask. -/
abbrev fillAsk (iop : ℤ) (out : Outcome) (ask : Order) : Matching × Levels .buy :=
  FillLoop.uncross.fill (fun m bidPrice => bidPrice < iop || m.incoming.remainingQty = 0)
    (fun _ => iop) ⟨out, ask⟩ out.book.bids

lemma stops_fillAsk (iop : ℤ) : FillLoop.Stops
    (fun m bidPrice => bidPrice < iop || m.incoming.remainingQty = 0) (fun _ p => iop ≤ p) where
  iff m p := by
    simp only [Bool.or_eq_false_iff, decide_eq_false_iff_not, not_lt]
    exact and_comm
  shrunk _ _ := Iff.rfl

/-- What one turn of the outer loop does, in terms of the loop over the bids. -/
lemma fillAsk_of_uncrossAsk (h : uncrossAsk iop out ask = some (out', left)) :
    ∃ m bids, fillAsk iop out ask = (m, bids) ∧
      left = (if m.incoming.remainingQty = 0 then none else some m.incoming) ∧
      out' = ⟨{ m.book with
        bids := bids
        orderIndex := if m.incoming.remainingQty = 0 then m.book.orderIndex.erase m.incoming.orderId
          else m.book.orderIndex }, m.log⟩ := by
  rw [uncrossAsk] at h
  cases h
  exact ⟨_, _, rfl, rfl, rfl⟩

/-- The state of the auction: the book without its asks, which are given as they stand. -/
structure Auctioned (b : Book) (out : Outcome) (offers : List Order) : Prop where
  bids : out.book.bids.OK
  frame : out.book = { b with
    nextTradeId := out.book.nextTradeId
    lastTradePrice := out.book.lastTradePrice
    bids := out.book.bids
    orderIndex := out.book.orderIndex }
  asks : ∀ a' ∈ offers, ∃ a ∈ b.resting .sell, a.Shrunk a'
  indexed : Indexed b.orderIndex (↑(b.resting .buy) + ↑(b.resting .sell)) →
    Indexed out.book.orderIndex (↑out.book.bids.elems + ↑offers)
  steps : ∀ rest hist,
    Steps ((⟨b, []⟩ : Outcome).ledger (↑(b.resting .buy) + (↑(b.resting .sell) + rest)) hist)
      (out.ledger (↑out.book.bids.elems + (↑offers + rest)) hist)

/-- An ask that is taken in hand with nothing left is dropped. -/
lemma inHand_steps (out : Outcome) (ask : Order) (rest : Multiset Order) (hist : List BookEvent) :
    Steps (out.ledger (ask ::ₘ rest) hist)
      (out.ledger (FillLoop.uncross.inHand ask + rest) hist) := by
  by_cases hz : ask.remainingQty = 0
  · have hhand : FillLoop.uncross.inHand ask = 0 := by simp [FillLoop.inHand, FillLoop.uncross, hz]
    rw [hhand, zero_add]
    exact Relation.ReflTransGen.single (.drop ask rest rfl hz)
  · have hhand : FillLoop.uncross.inHand ask = {ask} := by simp [FillLoop.inHand, hz]
    rw [hhand]
    exact Relation.ReflTransGen.refl

namespace Auctioned

lemma refl (h : b.Shape) : Auctioned b ⟨b, []⟩ (b.resting .sell) :=
  ⟨h.levels .buy, rfl, fun a ha => ⟨a, ha, .refl a⟩, id, fun _ _ => Relation.ReflTransGen.refl⟩

/-- One turn of the outer loop. -/
lemma turn {done todo : List Order} (hb : b.Shape) (h : Auctioned b out (done ++ ask :: todo))
    (hprice : ask.price ≤ iop) (hask : uncrossAsk iop out ask = some (out', left)) :
    Auctioned b out' (done ++ (left.toList ++ todo)) := by
  obtain ⟨m, bids, hfill, rfl, rfl⟩ := fillAsk_of_uncrossAsk hask
  obtain ⟨a, ha, hs⟩ := h.asks ask (by simp)
  have hok := FillLoop.uncross.fill_ok ⟨out, ask⟩ (fun _ => iop)
    (fun m bidPrice => bidPrice < iop || m.incoming.remainingQty = 0) h.bids
  have hfills := FillLoop.uncross.fill_fills ⟨out, ask⟩ (fun _ => iop) h.bids (stops_fillAsk iop)
  have hsteps := FillLoop.uncross.fill_steps ⟨out, ask⟩ (fun _ => iop) h.bids (stops_fillAsk iop)
    FillLoop.uncross_fair (hs.side.trans (hb.side ha))
    (by rw [hs.ordType, hb.executable ha]) (fun _ _ _ => not_lt.mpr hprice)
    (fun _ _ hr _ => not_lt.mpr hr)
  rw [show FillLoop.uncross.fill _ _ _ _ = (m, bids) from hfill] at hok hfills hsteps
  have hframe := hfills.frame
  have hshrunk : ask.Shrunk m.incoming := hfills.incoming
  refine ⟨hok, ?_, ?_, ?_, ?_⟩
  · rw [hframe]
    show { out.book with
      nextTradeId := _, lastTradePrice := _, bids := _, orderIndex := _ : Book } = _
    rw [h.frame]
  · intro a' ha'
    simp only [List.mem_append, Option.mem_toList] at ha'
    rcases ha' with ha' | ha' | ha'
    · exact h.asks a' (by simp [ha'])
    · split at ha'
      · cases ha'
      · cases ha'
        exact ⟨a, ha, hs.trans hshrunk⟩
    · exact h.asks a' (by simp [ha'])
  · intro hI
    have hindexed := hfills.indexed _ (h.indexed hI)
    rw [coe_middle, Multiset.add_cons] at hindexed
    rw [coe_left]
    have hinc := hindexed.shrink hshrunk
    by_cases hz : m.incoming.remainingQty = 0
    · simpa [hz] using hinc.erase
    · simp only [hz, if_false, Option.toList_some, Multiset.coe_singleton, Multiset.singleton_add,
        Multiset.add_cons]
      exact hinc
  · intro rest hist
    apply (h.steps rest hist).trans
    have hhand := inHand_steps out ask (↑out.book.bids.elems + (↑(done ++ todo) + rest)) hist
    have hall := hhand.trans (hsteps (↑(done ++ todo) + rest) hist)
    rw [FillLoop.inHand_of_reports rfl] at hall
    show Steps _ (m.ledger (↑bids.elems + _) hist)
    rw [coe_middle, coe_left, Multiset.cons_add, Multiset.add_cons, add_assoc,
      add_left_comm (↑bids.elems : Multiset Order)]
    exact hall

end Auctioned

/-- The outer loop of `uncross`. -/
abbrev fillAsks (iop : ℤ) (b : Book) : Outcome × Levels .sell :=
  b.asks.sweep (fun _ askPrice => askPrice > iop) (fun _ => uncrossAsk iop) ⟨b, []⟩

lemma uncross_eq (hiop : b.getIOP ≠ 0) : b.uncross
    = { (fillAsks b.getIOP b).1 with
        book := (fillAsks b.getIOP b).1.book.setLevels .sell (fillAsks b.getIOP b).2 } := by
  simp only [uncross, hiop, if_false, setLevels]

/-- The outer loop is a flat loop over the asks. -/
lemma fillAsks_flat (h : b.Shape) (iop : ℤ) :
    Sweep.sweep (Sweep.visitFlat Order.price (fun _ askPrice => askPrice > iop)
        fun _ => uncrossAsk iop) ⟨b, []⟩ (b.resting .sell)
      = ((fillAsks iop b).1, (fillAsks iop b).2.elems) :=
  (h.levels .sell).sweep_flat (fun _ askPrice => askPrice > iop) (fun _ => uncrossAsk iop) ⟨b, []⟩
    (fun p st o hv => by simp [uncrossAsk] at hv) (fun p st o st' left hgo _ hstop => by
      simp_all)

/-- The rule for the outer loop, for an invariant of the outcome so far and of the asks as they
stand. -/
theorem fillAsks_invariant (h : b.Shape) (iop : ℤ) {P : Outcome → List Order → Prop}
    (turn : ∀ out done ask todo out' left, P out (done ++ ask :: todo) → ask.price ≤ iop →
      uncrossAsk iop out ask = some (out', left) → P out' (done ++ (left.toList ++ todo)))
    (h₀ : P ⟨b, []⟩ (b.resting .sell)) :
    P (fillAsks iop b).1 (fillAsks iop b).2.elems := by
  have hrule := Sweep.sweep_invariant
    (Sweep.visitFlat Order.price (fun _ askPrice => askPrice > iop) fun _ => uncrossAsk iop)
    (P := P)
    (fun out done ask todo out' left hP hv => by
      rw [Sweep.visitFlat] at hv
      split at hv
      · cases hv
      · rename_i hgo
        exact turn out done ask todo out' left hP (by simpa using hgo) hv) h₀
  rwa [fillAsks_flat h iop] at hrule

theorem fillAsks_auctioned (h : b.Shape) (iop : ℤ) :
    Auctioned b (fillAsks iop b).1 (fillAsks iop b).2.elems :=
  fillAsks_invariant h iop (fun _ _ _ _ _ _ hP hprice hask => hP.turn h hprice hask) (.refl h)

lemma fillAsks_ok (h : b.Shape) (iop : ℤ) : (fillAsks iop b).2.OK :=
  (h.levels .sell).sweep fun _ out ask _ _ hask => by
    obtain ⟨m, bids, hfill, hleft, -⟩ := fillAsk_of_uncrossAsk hask
    split at hleft
    · cases hleft
    · cases hleft
      rw [show m = _ from (congrArg Prod.fst hfill).symm]
      exact FillLoop.uncross.fill_shrunk ⟨out, ask⟩ fun _ => iop

/-- The auction keeps the shape of the book. -/
theorem uncross_shape (h : b.Shape) : b.uncross.book.Shape := by
  by_cases hiop : b.getIOP = 0
  · simpa [uncross, hiop] using h
  · have ha := fillAsks_auctioned h b.getIOP
    have hok := fillAsks_ok h b.getIOP
    rw [uncross_eq hiop]
    generalize fillAsks b.getIOP b = r at *
    have hstops : r.1.book.stopOrders = b.stopOrders := by rw [ha.frame]
    refine ⟨?_, ?_, ?_, ?_⟩
    · intro s
      cases s with
      | buy => exact ha.bids
      | sell => exact hok
    · exact ha.indexed h.indexed
    · exact hstops ▸ h.parked
    · exact hstops ▸ h.arrival

lemma uncross_nextOrderId (h : b.Shape) : b.uncross.book.nextOrderId = b.nextOrderId := by
  by_cases hiop : b.getIOP = 0
  · simp [uncross, hiop]
  · have ha := fillAsks_auctioned h b.getIOP
    rw [uncross_eq hiop, setLevels_nextOrderId, ha.frame]

/-- The auction is a sequence of rules of the ledger. -/
theorem uncross_steps (h : b.Shape) (hist : List BookEvent) :
    Steps (b.ledger hist) (b.uncross.book.ledger (hist ++ b.uncross.log)) := by
  by_cases hiop : b.getIOP = 0
  · simpa [uncross, hiop] using Relation.ReflTransGen.refl
  · have ha := fillAsks_auctioned h b.getIOP
    rw [uncross_eq hiop]
    generalize fillAsks b.getIOP b = r at *
    have hstops : r.1.book.stopOrders = b.stopOrders := by rw [ha.frame]
    have hsteps := ha.steps ↑b.stopOrders hist
    rw [← add_assoc, ← add_assoc] at hsteps
    have hlive : (r.1.book.setLevels .sell r.2).live
        = ↑r.1.book.bids.elems + ↑r.2.elems + ↑b.stopOrders := by rw [← hstops]; rfl
    simp only [ledger, hlive, setLevels_nextOrderId, setLevels_nextTradeId,
      setLevels_lastTradePrice]
    simpa only [Outcome.ledger, List.append_nil, live] using hsteps

end Book

end EuNEx
