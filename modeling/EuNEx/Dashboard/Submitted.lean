import EuNEx.Dashboard.Database

/-!
# The order that a submission returns

What `submit_order` does, from the state before. The order trades with the entries that it reaches,
the first first, until its quantity is used up: one trade each, at the price of the entry. It rests
then, or it is filled, or it is left with a quantity that is nowhere in the books.
-/

namespace EuNEx.Dashboard

variable {P : Type*}

/-- What is open of an order: 0 if it is not there, or not open. -/
def MatchingEngine.live (m : MatchingEngine P) (orderId : ℕ) : ℤ :=
  ((m.orders.find? fun o => o.orderId = orderId && o.isOpen).map Order.remainingQty).getD 0

/-- The loop over `SYMBOLS` for the id of a name. -/
def symbolNamed (symbols : List (ℕ × List Char)) (name : List Char) : Option ℕ :=
  (symbols.find? fun info => info.2 = name).map Prod.fst

/-- An order that may rest. -/
def Submission.Rests (r : Submission P) : Prop :=
  r.orderType ≠ .market ∧ r.tif ≠ .ioc ∧ r.tif ≠ .fok

/-- The entries that an order of this quantity comes to: those whose turn comes before the quantity
is used up. -/
def taken : ℤ → List (Entry P) → List (Entry P)
  | _, [] => []
  | quantity, e :: l => if quantity ≤ 0 then [] else e :: taken (quantity - e.remainingQty) l

/-- What is open of some entries. -/
def openQty (l : List (Entry P)) : ℤ := (l.map Entry.remainingQty).sum

/-- The entries that a new order trades with. -/
def MatchingEngine.counterparties [LinearOrder P] (m : MatchingEngine P) (incoming : Order P) :
    List (Entry P) :=
  if incoming.tif = .fok ∧ m.available incoming < incoming.quantity then []
  else taken incoming.quantity ((m.entries incoming.symbolIdx incoming.side.opposite).takeWhile
    fun e => incoming.priceOk e.price)

/-- They have the quantity of the order. -/
def MatchingEngine.Suffices [LinearOrder P] (m : MatchingEngine P) (incoming : Order P) : Prop :=
  incoming.quantity ≤ openQty (m.counterparties incoming)

/-- The trade is one of the order with the entry, at the price of the entry. -/
structure Trade.IsWith (incoming : Order P) (e : Entry P) (t : Trade P) : Prop where
  price : t.price = e.price
  buyOrderId : t.buyOrderId = if incoming.side = .buy then incoming.orderId else e.orderId
  sellOrderId : t.sellOrderId = if incoming.side = .buy then e.orderId else incoming.orderId

/-- The ids in the trades have been given out. -/
def MatchingEngine.TradesBelow (m : MatchingEngine P) : Prop :=
  ∀ t ∈ m.trades, t.buyOrderId < m.nextOrderId ∧ t.sellOrderId < m.nextOrderId

lemma mem_of_symbolNamed {symbols : List (ℕ × List Char)} {name : List Char} {symbolIdx : ℕ}
    (h : symbolNamed symbols name = some symbolIdx) : symbolIdx ∈ symbols.map Prod.fst := by
  obtain ⟨info, hinfo, rfl⟩ := Option.map_eq_some_iff.mp h
  exact List.mem_map_of_mem (List.mem_of_find?_eq_some hinfo)

/-! ### What is open -/

section

variable {m : MatchingEngine P} {o : Order P} {id : ℕ}

lemma live_of_mem [LinearOrder P] (h : m.InStep) (ho : o ∈ m.orders) (hopen : o.isOpen = true) :
    m.live o.orderId = o.remainingQty := by
  rw [MatchingEngine.live]
  cases hfind : m.orders.find? fun a => a.orderId = o.orderId && a.isOpen with
  | none => simpa [hopen] using List.find?_eq_none.mp hfind o ho
  | some a =>
    have hid : a.orderId = o.orderId ∧ a.isOpen = true := by simpa using List.find?_some hfind
    obtain rfl := h.eq_of_orderId (List.mem_of_find?_eq_some hfind) ho hid.1
    rfl

lemma live_of_not_open (h : ∀ o ∈ m.orders, o.orderId = id → ¬o.isOpen = true) :
    m.live id = 0 := by
  have hfind : (m.orders.find? fun o => o.orderId = id && o.isOpen) = none :=
    List.find?_eq_none.mpr fun o ho => by simpa using h o ho
  rw [MatchingEngine.live, hfind]
  rfl

end

/-! ### Matching -/

section

variable {quantity : ℤ} {e : Entry P} {l : List (Entry P)}

lemma taken_of_nonpos (h : quantity ≤ 0) : taken quantity l = [] := by
  cases l with
  | nil => rfl
  | cons e l => exact if_pos h

lemma mem_of_mem_taken (h : e ∈ taken quantity l) : e ∈ l := by
  induction l generalizing quantity with
  | nil => exact h
  | cons a l ih =>
    rw [taken] at h
    split at h
    · cases h
    · rcases List.mem_cons.mp h with rfl | h
      · exact List.mem_cons_self
      · exact List.mem_cons_of_mem _ (ih h)

lemma taken_cons (h : 0 < quantity) :
    taken quantity (e :: l) = e :: taken (quantity - e.remainingQty) l := if_neg (not_le.mpr h)

@[simp] lemma openQty_nil : openQty ([] : List (Entry P)) = 0 := rfl

@[simp] lemma openQty_cons : openQty (e :: l) = e.remainingQty + openQty l := List.sum_cons

end

namespace Match

variable {k k' : Match P} {e : Entry P} {l : List (Entry P)}

/-- What the status of the order in hand says: nothing has been filled, or something has. -/
def Marked (k : Match P) : Prop :=
  k.incoming.remainingQty = k.incoming.quantity ∨ k.incoming.status = .partiallyFilled ∨
    k.incoming.status = .filled

lemma marked_fill (k : Match P) (e : Entry P) : (k.fill e).1.Marked := by
  have hstatus : (k.fill e).1.incoming.status
    = if 0 < (k.fill e).1.incoming.remainingQty then .partiallyFilled else .filled := rfl
  rw [Marked, hstatus]
  exact .inr (ite_eq_or_eq ..)

/-- The trade of a fill is one of the order in hand and the order behind the entry. -/
lemma tradesBelow_fill (h : k.TradesBelow) (hid : k.incoming.orderId < k.nextOrderId)
    (he : e.orderId < k.nextOrderId) : (k.fill e).1.TradesBelow := by
  intro t ht
  rcases List.mem_append.mp ht with ht | ht
  · exact h t ht
  · obtain rfl := List.mem_singleton.mp ht
    rw [Match.trade]
    constructor <;> split
    · exact hid
    · exact he
    · exact he
    · exact hid

lemma accounted_fill (h : k.incoming.Accounted k.trades) :
    (k.fill e).1.incoming.Accounted (k.fill e).1.trades := by
  have hacc : k.incoming.quantity - k.incoming.remainingQty
    = executed k.trades k.incoming.orderId := h
  show k.incoming.quantity - (k.incoming.remainingQty - min k.incoming.remainingQty e.remainingQty)
    = executed (k.fill e).1.trades k.incoming.orderId
  rw [executed_fill, if_pos (.inl rfl), ← hacc]
  exact sub_sub_eq_add_sub _ _ _ |>.trans (add_sub_right_comm _ _ _)

variable [LinearOrder P]

lemma priceOk_fill (price : P) : (k.fill e).1.incoming.priceOk price = k.incoming.priceOk price :=
  rfl

/-- An order with nothing open is left alone. -/
lemma sweep_of_nonpos (h : k.incoming.remainingQty ≤ 0) : (Sweep.sweep visit k l).1 = k := by
  cases l with
  | nil => rfl
  | cons e l => rw [Sweep.sweep_cons_stop (if_pos (.inl h))]

/-- The loop takes what the entries have, and trades with each that it comes to. -/
lemma sweep_taken (hpos : 0 < k.incoming.remainingQty) :
    (Sweep.sweep visit k l).1.incoming.remainingQty
        = max 0 (k.incoming.remainingQty - openQty (taken k.incoming.remainingQty
          (l.takeWhile fun e => k.incoming.priceOk e.price))) ∧
      ∃ ts, (Sweep.sweep visit k l).1.trades = k.trades ++ ts ∧
        ∀ t ∈ ts, ∃ e ∈ taken k.incoming.remainingQty
          (l.takeWhile fun e => k.incoming.priceOk e.price), t.IsWith k.incoming e := by
  induction l generalizing k with
  | nil =>
    refine ⟨?_, [], by simp⟩
    rw [List.takeWhile_nil, taken, openQty_nil, sub_zero, max_eq_right hpos.le]
    rfl
  | cons e l ih =>
    by_cases hok : k.incoming.priceOk e.price = true
    · have hvisit : k.visit e = some ((k.fill e).1, (k.fill e).2) := if_neg (by simp [hok, hpos])
      have hafter : (k.fill e).1.incoming.remainingQty
        = k.incoming.remainingQty - min k.incoming.remainingQty e.remainingQty := rfl
      have htake : ((e :: l).takeWhile fun e => k.incoming.priceOk e.price)
        = e :: l.takeWhile fun e => k.incoming.priceOk e.price := List.takeWhile_cons_of_pos hok
      obtain ⟨t, htrades, hwith⟩ : ∃ t, (k.fill e).1.trades = k.trades ++ [t] ∧
        t.IsWith k.incoming e := ⟨_, rfl, rfl, rfl, rfl⟩
      rw [Sweep.sweep_cons_go hvisit, htake, taken_cons hpos, openQty_cons]
      by_cases hle : k.incoming.remainingQty ≤ e.remainingQty
      · rw [min_eq_left hle, sub_self] at hafter
        rw [sweep_of_nonpos hafter.le, hafter, taken_of_nonpos (sub_nonpos.mpr hle)]
        refine ⟨(max_eq_left (by simpa [openQty] using hle)).symm, [t], htrades, ?_⟩
        simpa using hwith
      · rw [min_eq_right (not_le.mp hle).le] at hafter
        obtain ⟨hleft, ts, hts, hall⟩ := ih (k := (k.fill e).1) (by omega)
        simp only [priceOk_fill] at hleft hall
        rw [hafter] at hleft hall
        refine ⟨by rw [hleft, sub_sub], t :: ts, ?_, ?_⟩
        · rw [hts, htrades, List.append_assoc, List.singleton_append]
        · intro t' ht'
          rcases List.mem_cons.mp ht' with rfl | ht'
          · exact ⟨e, List.mem_cons_self, hwith⟩
          · obtain ⟨e', he', hwith'⟩ := hall t' ht'
            exact ⟨e', List.mem_cons_of_mem _ he', hwith'.price, hwith'.buyOrderId,
              hwith'.sellOrderId⟩
    · have htake : ((e :: l).takeWhile fun e => k.incoming.priceOk e.price) = [] :=
        List.takeWhile_cons_of_neg hok
      rw [Sweep.sweep_cons_stop (if_pos (.inr (by simpa using hok))), htake]
      refine ⟨?_, [], by simp⟩
      rw [taken, openQty_nil, sub_zero, max_eq_right hpos.le]

end Match

namespace MatchingEngine

variable [LinearOrder P] {m : MatchingEngine P} {incoming : Order P}

/-- The entries that a new order trades with are those of older orders. -/
lemma InStep.lt_of_mem_counterparties (h : m.InStep) {e : Entry P}
    (he : e ∈ m.counterparties incoming) : e.orderId < m.nextOrderId := by
  rw [counterparties] at he
  split at he
  · cases he
  · have hmem := (List.takeWhile_sublist _).mem (mem_of_mem_taken he)
    obtain ⟨o, ho, -, rfl⟩ := h.exists_order hmem
    exact h.fresh o ho

/-- What holds of the order in hand and of the trades at every turn. -/
structure InHand (k : Match P) : Prop where
  accounted : k.incoming.Accounted k.trades
  marked : k.Marked
  below : k.TradesBelow
  orderId : k.incoming.orderId < k.nextOrderId
  status : k.incoming.status ≠ .cancelled ∧ k.incoming.status ≠ .rejected

/-- What `_match` makes of a new order. -/
structure Matched (m : MatchingEngine P) (incoming : Order P) (k : Match P) : Prop where
  frame : Match.Frame ⟨m, incoming, []⟩ k
  accounted : k.incoming.Accounted k.trades
  marked : k.Marked
  below : k.TradesBelow
  unfilled : incoming.quantity ≤ 0 → k.incoming.remainingQty = incoming.quantity
  filled : 0 < incoming.quantity → k.incoming.remainingQty
    = max 0 (incoming.quantity - openQty (m.counterparties incoming))
  trades : ∃ ts, k.trades = m.trades ++ ts ∧
    ∀ t ∈ ts, ∃ e ∈ m.counterparties incoming, t.IsWith incoming e
  status : k.incoming.status = .cancelled ∨ k.incoming.status = .rejected → incoming.tif = .fok

lemma matched_matchIncoming (hm : m.InStep) (hbelow : m.TradesBelow)
    (hquantity : incoming.remainingQty = incoming.quantity) (hstatus : incoming.status = .new)
    (hid : incoming.orderId < m.nextOrderId)
    (hnew : ∀ t ∈ m.trades, t.buyOrderId ≠ incoming.orderId ∧ t.sellOrderId ≠ incoming.orderId) :
    m.Matched incoming (m.matchIncoming incoming) := by
  have haccounted : incoming.Accounted m.trades := by
    rw [Order.Accounted, hquantity, sub_self]
    exact (executed_eq_zero hnew).symm
  have hframe := matchIncoming_frame m incoming
  rw [matchIncoming] at hframe ⊢
  split at hframe <;> rename_i hfok
  · rw [if_pos hfok]
    refine ⟨hframe, haccounted, .inl hquantity, hbelow, fun _ => hquantity, fun hpos => ?_,
      ⟨[], by simp⟩, fun _ => hfok.1⟩
    rw [counterparties, if_pos hfok]
    rw [openQty_nil, sub_zero, max_eq_right hpos.le]
    exact hquantity
  · rw [if_neg hfok]
    have hinHand : InHand (m.sweepOpposite incoming) := by
      refine sweepOpposite_keeps hm ⟨haccounted, .inl hquantity, hbelow, hid, by simp [hstatus]⟩ ?_
        fun _ _ h => ⟨h.accounted, h.marked, h.below, h.orderId, h.status⟩
      intro k e l _ hk he h
      obtain ⟨o, ho, -, -, -, rfl, -⟩ := hk.fill_orders he
      refine ⟨Match.accounted_fill h.accounted, Match.marked_fill k _,
        Match.tradesBelow_fill h.below h.orderId (hk.fresh o ho), h.orderId, ?_⟩
      have hfilled : (k.fill o.entry).1.incoming.status
        = if 0 < (k.fill o.entry).1.incoming.remainingQty then .partiallyFilled else .filled := rfl
      rw [hfilled]
      split <;> simp
    have hstatus' : (m.sweepOpposite incoming).incoming.status = .cancelled ∨
        (m.sweepOpposite incoming).incoming.status = .rejected → incoming.tif = .fok :=
      fun h => absurd h (not_or.mpr hinHand.status)
    have hparties : m.counterparties incoming = taken incoming.quantity
        ((m.entries incoming.symbolIdx incoming.side.opposite).takeWhile fun e =>
          incoming.priceOk e.price) := if_neg hfok
    rcases le_or_gt incoming.quantity 0 with hle | hpos
    · have hsame : (Sweep.sweep Match.visit ⟨m, incoming, []⟩
          (m.entries incoming.symbolIdx incoming.side.opposite)).1 = ⟨m, incoming, []⟩ :=
        Match.sweep_of_nonpos (hquantity.trans_le hle)
      refine ⟨hframe, hinHand.accounted, hinHand.marked, hinHand.below, fun _ => ?_,
        fun hpos => absurd hpos (not_lt.mpr hle), ⟨[], ?_, by simp⟩, hstatus'⟩
      · rw [sweepOpposite, hsame, ← hquantity]
      · rw [sweepOpposite, hsame, List.append_nil]
        rfl
    · obtain ⟨hleft, htrades⟩ := Match.sweep_taken (k := ⟨m, incoming, []⟩)
        (l := m.entries incoming.symbolIdx incoming.side.opposite) (hquantity.symm ▸ hpos)
      rw [hquantity, ← hparties] at hleft htrades
      exact ⟨hframe, hinHand.accounted, hinHand.marked, hinHand.below,
        fun hle => absurd hle (not_le.mpr hpos), fun _ => hleft, htrades, hstatus'⟩

/-! ### The answer -/

/-- The order may rest, or there is enough for it. -/
def Filled (m : MatchingEngine P) (symbolIdx : ℕ) (r : Submission P) : Prop :=
  0 ≤ r.quantity ∧ (0 < r.quantity → r.Rests ∨ m.Suffices (r.order symbolIdx m.nextOrderId))

/-- What becomes of a new order: it rests with what is open, it is filled, or it is left with a
quantity that is in no book. -/
inductive Answer (m : MatchingEngine P) (symbolIdx : ℕ) (r : Submission P) (orders : List (Order P))
    (o : Order P) : Prop
  | rests (hpos : 0 < o.remainingQty) (hopen : o.isOpen = true) (hmem : o ∈ orders)
      (hmarked : o.remainingQty = r.quantity ∨ o.status = .partiallyFilled)
      (hfilled : m.Filled symbolIdx r)
  | filled (hzero : o.remainingQty = 0) (hstatus : o.status = .filled)
      (hgone : ∀ a ∈ orders, a.orderId ≠ m.nextOrderId) (hfilled : m.Filled symbolIdx r)
  | left (hne : o.remainingQty ≠ 0) (hgone : ∀ a ∈ orders, a.orderId ≠ m.nextOrderId)
      (hleft : ¬m.Filled symbolIdx r)

section

variable {symbolIdx : ℕ} {r : Submission P} {k : Match P}

/-- The match leaves nothing open exactly if there is enough. -/
lemma Matched.remainingQty_eq_zero_iff
    (hk : Matched { m with nextOrderId := m.nextOrderId + 1 } (r.order symbolIdx m.nextOrderId) k)
    (hpos : 0 < r.quantity) :
    k.incoming.remainingQty = 0 ↔ m.Suffices (r.order symbolIdx m.nextOrderId) := by
  have hfilled : k.incoming.remainingQty
    = max 0 (r.quantity - openQty (m.counterparties (r.order symbolIdx m.nextOrderId))) :=
    hk.filled hpos
  rw [hfilled, max_eq_left_iff, sub_nonpos]
  rfl

/-- What is still open, of an order that may not rest, is left. -/
lemma Matched.not_filled
    (hk : Matched { m with nextOrderId := m.nextOrderId + 1 } (r.order symbolIdx m.nextOrderId) k)
    (hne : k.incoming.remainingQty ≠ 0) (hrests : 0 < r.quantity → ¬r.Rests) :
    ¬m.Filled symbolIdx r := by
  rintro ⟨hnonneg, henough⟩
  rcases hnonneg.lt_or_eq with hpos | hz
  · have hsuffices := (henough hpos).resolve_left (hrests hpos)
    exact hne ((hk.remainingQty_eq_zero_iff hpos).mpr hsuffices)
  · exact hne ((hk.unfilled hz.ge).trans hz.symm)

/-- What `submit_order` makes of the order after the match. -/
lemma Matched.answer (hm : m.InStep)
    (hk : Matched { m with nextOrderId := m.nextOrderId + 1 } (r.order symbolIdx m.nextOrderId) k) :
    m.Answer symbolIdx r k.settle.orders k.settle.incoming := by
  have hincoming := hk.frame.incoming
  have hquantity : k.incoming.quantity = r.quantity := by rw [hincoming]; rfl
  have htype : k.incoming.orderType = r.orderType := by rw [hincoming]; rfl
  have htif : k.incoming.tif = r.tif := by rw [hincoming]; rfl
  have hgone : ∀ a ∈ k.orders, a.orderId ≠ m.nextOrderId := by
    intro a ha heq
    obtain ⟨o, ho, hid⟩ := hk.frame.exists_old ha
    exact (hm.fresh o ho).ne (hid.trans heq)
  have hnonneg (h : 0 ≤ k.incoming.remainingQty) : 0 ≤ r.quantity := by
    by_contra hneg
    have hsame : k.incoming.remainingQty = r.quantity := hk.unfilled (not_le.mp hneg).le
    omega
  rw [Match.settle]
  dsimp only
  split
  · rename_i hcont
    split
    · rename_i hleave
      refine .left hcont.1.ne' hgone (hk.not_filled hcont.1.ne' ?_)
      rintro - ⟨hmarket, hioc, -⟩
      exact hleave.elim (htype ▸ hmarket) (htif ▸ hioc)
    · rename_i hstay
      split
      · rename_i hfok
        refine .left hcont.1.ne' hgone (hk.not_filled hcont.1.ne' ?_)
        rintro - ⟨-, -, hnot⟩
        exact hnot (htif ▸ hfok)
      · rename_i hfok
        have hopen := hk.frame.isOpen hcont.1 hcont.2.2 rfl
        have hrests : r.Rests := by
          rw [Submission.Rests, ← htype, ← htif]
          exact ⟨fun h => hstay (.inl h), fun h => hstay (.inr h), hfok⟩
        refine .rests hcont.1 hopen ?_ ?_ ⟨hnonneg hcont.1.le, fun _ => .inl hrests⟩
        · exact List.mem_append_right _ (List.mem_singleton_self _)
        · rw [← hquantity]
          refine hk.marked.imp_right fun h => h.resolve_right fun hfilled => ?_
          simp [Order.isOpen, hfilled] at hopen
  · rename_i hstop
    split
    · rename_i hz
      refine .filled hz rfl hgone ⟨hnonneg hz.ge, fun hpos => .inr ?_⟩
      exact (hk.remainingQty_eq_zero_iff hpos).mp hz
    · rename_i hne
      refine .left hne hgone (hk.not_filled hne fun hpos hrests => hrests.2.2 ?_)
      have hpos' : 0 < k.incoming.remainingQty :=
        lt_of_le_of_ne (hk.filled hpos ▸ le_max_left _ _) (Ne.symm hne)
      refine hk.status (or_iff_not_imp_left.mpr fun hcancelled => ?_)
      by_contra hrejected
      exact hstop ⟨hpos', hcancelled, hrejected⟩

end

/-- What `submit_order` does with a new order, and what it returns. -/
structure Answered (m : MatchingEngine P) (symbolIdx : ℕ) (r : Submission P)
    (m' : MatchingEngine P) (o : Order P) : Prop where
  answer : m.Answer symbolIdx r m'.orders o
  quantity : o.quantity = r.quantity
  accounted : o.Accounted m'.trades
  below : m'.TradesBelow
  unfilled : r.quantity ≤ 0 → o.remainingQty = r.quantity
  filled : 0 < r.quantity → o.remainingQty
    = max 0 (r.quantity - openQty (m.counterparties (r.order symbolIdx m.nextOrderId)))
  trades : ∃ ts, m'.trades = m.trades ++ ts ∧
    ∀ t ∈ ts, ∃ e ∈ m.counterparties (r.order symbolIdx m.nextOrderId),
      t.IsWith (r.order symbolIdx m.nextOrderId) e

variable [Zero P]

omit [LinearOrder P] [Zero P] in
lemma TradesBelow.mono {m' : MatchingEngine P} (h : m.TradesBelow) (htrades : m'.trades = m.trades)
    (hnext : m.nextOrderId ≤ m'.nextOrderId) : m'.TradesBelow := by
  intro t ht
  rw [htrades] at ht
  exact ⟨(h t ht).1.trans_le hnext, (h t ht).2.trans_le hnext⟩

/-- A symbol that is known has a book. -/
lemma handle_submit {symbols : List ℕ} {symbolIdx : ℕ} (h : symbolIdx ∈ symbols)
    (r : Submission P) : m.handle symbols (.submit symbolIdx r)
      = ((m.submitOrder symbolIdx r).1, some (m.submitOrder symbolIdx r).2) := by
  rw [handle, if_pos h]
  rfl

lemma submitOrder_answered (hm : m.InStep) (hbelow : m.TradesBelow) (symbolIdx : ℕ)
    (r : Submission P) :
    m.Answered symbolIdx r (m.submitOrder symbolIdx r).1 (m.submitOrder symbolIdx r).2 := by
  set entered : MatchingEngine P := { m with nextOrderId := m.nextOrderId + 1 } with hentered
  set k := entered.matchIncoming (r.order symbolIdx m.nextOrderId) with hkdef
  have hk : entered.Matched (r.order symbolIdx m.nextOrderId) k :=
    matched_matchIncoming (hm.congr rfl (Nat.le_succ _) rfl)
      (hbelow.mono rfl (Nat.le_succ _)) rfl rfl (Nat.lt_succ_self _)
      fun t ht => ⟨(hbelow t ht).1.ne, (hbelow t ht).2.ne⟩
  have hquantity : k.incoming.quantity = r.quantity := by
    rw [hk.frame.incoming]
    rfl
  have hsettled := k.settle_frame
  have hremaining : k.settle.incoming.remainingQty = k.incoming.remainingQty := by
    rw [hsettled.incoming]
  refine ⟨hk.answer hm, ?_, ?_, ?_, fun hle => ?_, fun hpos => ?_, ?_⟩
  · show k.settle.incoming.quantity = r.quantity
    rw [hsettled.incoming, hquantity]
  · show k.settle.incoming.Accounted k.settle.trades
    rw [hsettled.incoming, hsettled.trades]
    exact hk.accounted
  · show ∀ t ∈ k.settle.trades, t.buyOrderId < k.settle.nextOrderId ∧
      t.sellOrderId < k.settle.nextOrderId
    rw [hsettled.trades, hsettled.nextOrderId]
    exact hk.below
  · exact hremaining.trans (hk.unfilled hle)
  · exact hremaining.trans (hk.filled hpos)
  · show ∃ ts, k.settle.trades = m.trades ++ ts ∧ _
    rw [hsettled.trades]
    exact hk.trades

/-! ### Ids -/

/-- A request gives out ids, and its trades are on ids that have been given out. -/
lemma TradesBelow.handle (h : m.TradesBelow) (hm : m.InStep) (symbols : List ℕ)
    (request : Request P) : m.nextOrderId ≤ (m.handle symbols request).1.nextOrderId ∧
      (m.handle symbols request).1.TradesBelow := by
  cases request with
  | submit symbolIdx r =>
    rw [MatchingEngine.handle]
    split
    · exact ⟨(m.submitOrder_frame symbolIdx r).1 ▸ Nat.le_succ _,
        (submitOrder_answered hm h symbolIdx r).below⟩
    · exact ⟨Nat.le_succ _, h.mono rfl (Nat.le_succ _)⟩
  | cancel id =>
    rw [MatchingEngine.handle]
    cases hr : m.cancelOrder id with
    | none => exact ⟨le_rfl, h⟩
    | some r =>
      obtain ⟨-, -, -, hnext, htrades, -, -⟩ := hm.cancelOrder_spec hr
      exact ⟨hnext.ge, h.mono htrades hnext.ge⟩
  | amend id newPrice newQuantity =>
    rw [MatchingEngine.handle]
    cases hr : m.amendOrder id newPrice newQuantity with
    | none => exact ⟨le_rfl, h⟩
    | some r =>
      obtain ⟨-, -, -, -, -, -, hnext, htrades, -⟩ := hm.amendOrder_spec hr
      exact ⟨hnext.ge, h.mono htrades hnext.ge⟩

/-- Only a new order trades. -/
lemma exists_trades_handle (hm : m.InStep) (h : m.TradesBelow) (symbols : List ℕ)
    (request : Request P) : ∃ ts, (m.handle symbols request).1.trades = m.trades ++ ts ∧
      ∀ t ∈ ts, ∃ symbolIdx r, request = .submit symbolIdx r ∧ symbolIdx ∈ symbols ∧
        ∃ e ∈ m.counterparties (r.order symbolIdx m.nextOrderId),
          t.IsWith (r.order symbolIdx m.nextOrderId) e := by
  cases request with
  | submit symbolIdx r =>
    by_cases hknown : symbolIdx ∈ symbols
    · rw [handle_submit hknown]
      obtain ⟨ts, htrades, hts⟩ := (submitOrder_answered hm h symbolIdx r).trades
      exact ⟨ts, htrades, fun t ht => ⟨symbolIdx, r, rfl, hknown, hts t ht⟩⟩
    · rw [MatchingEngine.handle, if_neg hknown]
      exact ⟨[], (List.append_nil _).symm, by simp⟩
  | cancel id =>
    rw [MatchingEngine.handle]
    cases hr : m.cancelOrder id with
    | none => exact ⟨[], (List.append_nil _).symm, by simp⟩
    | some r =>
      obtain ⟨-, -, -, -, htrades, -, -⟩ := hm.cancelOrder_spec hr
      exact ⟨[], htrades.trans (List.append_nil _).symm, by simp⟩
  | amend id newPrice newQuantity =>
    rw [MatchingEngine.handle]
    cases hr : m.amendOrder id newPrice newQuantity with
    | none => exact ⟨[], (List.append_nil _).symm, by simp⟩
    | some r =>
      obtain ⟨-, -, -, -, -, -, -, htrades, -⟩ := hm.amendOrder_spec hr
      exact ⟨[], htrades.trans (List.append_nil _).symm, by simp⟩

end MatchingEngine

end EuNEx.Dashboard
