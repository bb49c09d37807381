import EuNEx.Clearing.Strategies
import EuNEx.Clearing.Trading
import Mathlib.Data.Fintype.Basic

/-!
# Orders of members under way

`_trade_for_member` and `_submit_order` of `clearing_house/ch_ai_trader.py`, and `submit_order` of
`clearing_house/app.py`, step by step: a thread reads the capital of a member and then what it
holds, posts an order that these allow, and books the answer. In between other threads take their
steps. Nothing is put aside for an order that is under way, so two orders of a member at the same
time may spend the same capital.
-/

namespace EuNEx.Clearing

open Dashboard (MatchingEngine Request symbolNamed)

variable {ι M D : Type*}

/-- What a thread is to order for a member: what its strategy returns, given what that looks at
besides the member; or what was entered on the page, where the side may be any other text. -/
inductive Intent where
  | ai (strategy : AIStrategy) (bbos : List (List Char × Quote))
      (priceHistory : List (List Char × List ℚ)) (choices : Choices) (clOrdId : List Char)
  | human (symbol : List Char) (side : Option Side) (quantity : ℤ) (price : ℚ) (clOrdId : List Char)

/-- The order, if there is one. What is not a purchase is a sale to the engine and to the database,
but for the counts of the day; the page checks only what is called a purchase or a sale. -/
def Intent.order (memberId : M) (capital : ℚ) (holdings : Table (List Char) (Holding ℚ)) :
    Intent → Option (MemberOrder M ℚ)
  | .ai strategy bbos priceHistory choices clOrdId =>
    if bbos.isEmpty then none
    else
      (Setting.order ⟨capital, holdings, bbos, priceHistory, choices⟩ strategy).map fun o =>
        ⟨memberId, o.symbol, o.side.getD .sell, o.quantity, o.price, clOrdId⟩
  | .human symbol side quantity price clOrdId =>
    if side = some .buy ∧ capital < quantity * price ∨
        side = some .sell ∧ (holdings symbol).elim 0 Holding.quantity < quantity then
      none
    else some ⟨memberId, symbol, side.getD .sell, quantity, price, clOrdId⟩

/-- Where a thread stands with the order of a member. -/
inductive Job (M : Type*) where
  | idle
  | begun (memberId : M) (intent : Intent)
  /-- `get_member` has returned -/
  | member (memberId : M) (intent : Intent) (capital : ℚ)
  /-- `get_holdings` has returned, and the order is to be posted -/
  | decided (order : MemberOrder M ℚ)
  | answered (order : MemberOrder M ℚ) (result : Dashboard.Order ℚ)

/-- The member whose order is under way. -/
def Job.memberId : Job M → Option M
  | .idle => none
  | .begun memberId _ | .member memberId _ _ => some memberId
  | .decided order | .answered order _ => some order.memberId

/-- The engine, the clearing database and the threads. -/
structure Desks (ι M D : Type*) where
  engine : MatchingEngine ℚ := {}
  db : Database M (List Char) D ℚ
  jobs : ι → Job M := fun _ => .idle

/-- What happens. -/
inductive DeskInput (ι M D : Type*) where
  | begin (thread : ι) (memberId : M) (intent : Intent)
  /-- the thread takes its next step, on this day -/
  | next (thread : ι) (tradingDate : D)
  /-- an exception: a request that fails, or an answer that is lost -/
  | fail (thread : ι)
  /-- a request of another participant -/
  | other (request : Request ℚ)

/-- What the threads have done. -/
inductive DeskEvent (ι M D : Type*) where
  | posted (thread : ι) (order : MemberOrder M ℚ)
  | booked (thread : ι) (trade : BookedTrade M (List Char) D ℚ)

namespace Desks

section

variable [DecidableEq ι] [DecidableEq M] [DecidableEq D] (symbols : List (ℕ × List Char))
  (s : Desks ι M D)

/-- The thread goes on here. -/
def goOn (thread : ι) (job : Job M) : Desks ι M D :=
  { s with jobs := Function.update s.jobs thread job }

/-- The order is posted; one for an unknown symbol is dropped. -/
def post (thread : ι) (o : MemberOrder M ℚ) : Desks ι M D × List (DeskEvent ι M D) :=
  match symbolNamed symbols o.symbol with
  | none => (s.goOn thread .idle, [])
  | some symbolIdx =>
    match s.engine.handle (symbols.map Prod.fst) (.submit symbolIdx o.submission) with
    | (engine, some result) =>
      ({ s with engine }.goOn thread (.answered o result), [.posted thread o])
    | (engine, none) => ({ s with engine }.goOn thread .idle, [.posted thread o])

/-- The next step of a thread. -/
def next (thread : ι) (tradingDate : D) : Desks ι M D × List (DeskEvent ι M D) :=
  match s.jobs thread with
  | .idle => (s, [])
  | .begun memberId intent =>
    match s.db.members memberId with
    | none => (s.goOn thread .idle, [])
    | some capital => (s.goOn thread (.member memberId intent capital), [])
  | .member memberId intent capital =>
    match intent.order memberId capital (s.db.getHoldings memberId) with
    | none => (s.goOn thread .idle, [])
    | some o => (s.goOn thread (.decided o), [])
  | .decided o => s.post symbols thread o
  | .answered o result =>
    match booked o result tradingDate with
    | none => (s.goOn thread .idle, [])
    | some trade =>
      ({ s with db := s.db.recordTrade trade }.goOn thread .idle, [.booked thread trade])

/-- A step. A thread with an order under way begins no other. -/
def step : DeskInput ι M D → Desks ι M D × List (DeskEvent ι M D)
  | .begin thread memberId intent =>
    match s.jobs thread with
    | .idle => (s.goOn thread (.begun memberId intent), [])
    | _ => (s, [])
  | .next thread tradingDate => s.next symbols thread tradingDate
  | .fail thread => (s.goOn thread .idle, [])
  | .other request =>
    ({ s with engine := (s.engine.handle (symbols.map Prod.fst) request).1 }, [])

end

/-! ### What should hold -/

end Desks

/-- The strategy is fair to the member, or what was entered on the page is a purchase or a sale at a
price that is not negative. -/
def Intent.Fair (capital : ℚ) (holdings : Table (List Char) (Holding ℚ)) : Intent → Prop
  | .ai strategy bbos priceHistory choices _ =>
    Setting.Fair ⟨capital, holdings, bbos, priceHistory, choices⟩ strategy
  | .human _ side _ price _ => side ≠ none ∧ 0 ≤ price

/-- Where the order is decided on next, it is fair. -/
def Job.Fair (db : Database M (List Char) D ℚ) : Job M → Prop
  | .member memberId intent capital => intent.Fair capital (db.getHoldings memberId)
  | _ => True

/-- A thread begins no order of a member that has one under way, and what it orders is fair. -/
def Desks.Careful (s : Desks ι M D) : DeskInput ι M D → Prop
  | .begin _ memberId _ => ∀ i, (s.jobs i).memberId ≠ some memberId
  | .next thread _ => (s.jobs thread).Fair s.db
  | .fail _ | .other _ => True

section

instance (s : Setting) : DecidablePred s.Respects := fun order =>
  decidable_of_iff (0 < order.quantity ∧
      (order.side = some .buy ∧ order.quantity * order.price ≤ s.capital ∨
        order.side = some .sell ∧ order.quantity ≤ s.held order.symbol))
    ⟨fun h => ⟨h.1, h.2⟩, fun h => ⟨h.quantity, h.side⟩⟩

instance (s : Setting) : DecidablePred s.Fair := fun strategy =>
  decidable_of_iff _ (s.respects_order_iff strategy)

instance (capital : ℚ) (holdings : Table (List Char) (Holding ℚ)) :
    DecidablePred (Intent.Fair capital holdings)
  | .ai strategy bbos priceHistory choices _ =>
    inferInstanceAs (Decidable (Setting.Fair ⟨capital, holdings, bbos, priceHistory, choices⟩
      strategy))
  | .human _ side _ price _ => inferInstanceAs (Decidable (side ≠ none ∧ 0 ≤ price))

instance (db : Database M (List Char) D ℚ) : DecidablePred (Job.Fair db : Job M → Prop)
  | .member memberId intent capital =>
    inferInstanceAs (Decidable (intent.Fair capital (db.getHoldings memberId)))
  | .idle | .begun _ _ | .decided _ | .answered _ _ => inferInstanceAs (Decidable True)

instance [Fintype ι] [DecidableEq M] (s : Desks ι M D) : DecidablePred s.Careful
  | .begin _ memberId _ => inferInstanceAs (Decidable (∀ i, (s.jobs i).memberId ≠ some memberId))
  | .next thread _ => inferInstanceAs (Decidable ((s.jobs thread).Fair s.db))
  | .fail _ | .other _ => inferInstanceAs (Decidable True)

end

/-- No member has two orders under way. -/
def Desks.Alone (s : Desks ι M D) : Prop :=
  ∀ i j memberId, (s.jobs i).memberId = some memberId → (s.jobs j).memberId = some memberId → i = j

/-- No member has a debt, and the books agree with the log. -/
structure Database.Solvent {S : Type*} [DecidableEq M] [DecidableEq S]
    (opening : Table M ℚ) (db : Database M S D ℚ) : Prop where
  capital : ∀ memberId capital, db.members memberId = some capital → 0 ≤ capital
  consistent : db.Consistent opening

/-! ### Orders that are backed -/

/-- The member can afford an order in full. -/
structure MemberOrder.Backed (db : Database M (List Char) D ℚ) (o : MemberOrder M ℚ) : Prop where
  price : 0 ≤ o.price
  buy : o.side = .buy → ∀ capital, db.members o.memberId = some capital →
    o.quantity * o.price ≤ capital
  sell : o.side = .sell → o.quantity ≤ db.held o.memberId o.symbol

/-- What has been read still holds, and what is ordered can be afforded. -/
def Job.Backed (db : Database M (List Char) D ℚ) : Job M → Prop
  | .idle | .begun _ _ => True
  | .member memberId _ capital => db.members memberId = some capital
  | .decided o => o.Backed db
  | .answered o result => o.Backed db ∧ filledQty result ≤ max 0 o.quantity

section

variable {db db' : Database M (List Char) D ℚ} {o : MemberOrder M ℚ} {memberId : M}
  {result : Dashboard.Order ℚ} {tradingDate : D} {trade : BookedTrade M (List Char) D ℚ}
  {opening : Table M ℚ}

/-- What other members have does not matter. -/
lemma MemberOrder.Backed.congr (h : o.Backed db)
    (hmembers : db'.members o.memberId = db.members o.memberId)
    (hheld : ∀ symbol, db'.held o.memberId symbol = db.held o.memberId symbol) :
    o.Backed db' where
  price := h.price
  buy hside capital hcapital := h.buy hside capital (hmembers ▸ hcapital)
  sell hside := hheld o.symbol ▸ h.sell hside

lemma Job.Backed.congr {job : Job M} (h : job.Backed db)
    (hsame : ∀ m, job.memberId = some m →
      db'.members m = db.members m ∧ ∀ symbol, db'.held m symbol = db.held m symbol) :
    job.Backed db' := by
  cases job with
  | idle => trivial
  | begun => trivial
  | member m intent capital => exact (hsame m rfl).1.trans h
  | decided o => exact MemberOrder.Backed.congr h (hsame _ rfl).1 (hsame _ rfl).2
  | answered o result => exact ⟨h.1.congr (hsame _ rfl).1 (hsame _ rfl).2, h.2⟩

/-- A fair order is one that the member can afford. -/
lemma Intent.backed {intent : Intent} {capital : ℚ} (hcapital : db.members memberId = some capital)
    (hfair : intent.Fair capital (db.getHoldings memberId))
    (ho : intent.order memberId capital (db.getHoldings memberId) = some o) : o.Backed db := by
  cases intent with
  | ai strategy bbos priceHistory choices clOrdId =>
    rw [Intent.order] at ho
    split at ho
    · cases ho
    · obtain ⟨order, horder, rfl⟩ := Option.map_eq_some_iff.mp ho
      have hrespects := (Setting.respects_order_iff _ strategy).mpr hfair order horder
      refine ⟨Setting.price_order _ strategy order horder, fun hside c hc => ?_, fun hside => ?_⟩
      · obtain rfl : capital = c := Option.some.inj (hcapital.symm.trans hc)
        rcases hrespects.side with ⟨-, hle⟩ | ⟨hsell, -⟩
        · exact hle
        · simp [hsell] at hside
      · rcases hrespects.side with ⟨hbuy, -⟩ | ⟨-, hle⟩
        · simp [hbuy] at hside
        · exact hle
  | human symbol side quantity price clOrdId =>
    rw [Intent.order] at ho
    split at ho
    · cases ho
    · rename_i hchecks
      obtain rfl := Option.some.inj ho
      rw [not_or, not_and, not_and, not_lt, not_lt] at hchecks
      obtain ⟨hknown, hprice⟩ := hfair
      have hside : side = some (side.getD .sell) := by
        cases side with
        | none => exact absurd rfl hknown
        | some s => rfl
      refine ⟨hprice, fun hbuy c hc => ?_, fun hsell => ?_⟩
      · obtain rfl : capital = c := Option.some.inj (hcapital.symm.trans hc)
        exact hchecks.1 (hside.trans (congrArg some hbuy))
      · exact hchecks.2 (hside.trans (congrArg some hsell))

lemma Intent.memberId_order {intent : Intent} {capital : ℚ}
    {holdings : Table (List Char) (Holding ℚ)}
    (ho : intent.order memberId capital holdings = some o) : o.memberId = memberId := by
  cases intent with
  | ai strategy bbos priceHistory choices clOrdId =>
    rw [Intent.order] at ho
    split at ho
    · cases ho
    · obtain ⟨order, -, rfl⟩ := Option.map_eq_some_iff.mp ho
      rfl
  | human symbol side quantity price clOrdId =>
    rw [Intent.order] at ho
    split at ho
    · cases ho
    · obtain rfl := Option.some.inj ho
      rfl

/-- No more is filled than has been ordered. -/
lemma filledQty_le {m m' : MatchingEngine ℚ} {symbolIdx : ℕ}
    (h : m.Answered symbolIdx o.submission m' result) : filledQty result ≤ max 0 o.quantity := by
  have hquantity : result.quantity = o.quantity := h.quantity
  rw [filledQty]
  split
  · rcases le_or_gt o.quantity 0 with hle | hpos
    · have hremaining : result.remainingQty = o.quantity := h.unfilled hle
      rw [hquantity, hremaining, sub_self]
      exact le_max_left 0 _
    · rw [hquantity, h.filled hpos]
      exact (sub_le_self _ (le_max_left 0 _)).trans (le_max_right 0 _)
  · exact le_max_left 0 _

variable [DecidableEq M] [DecidableEq D]

/-- What is booked of a backed order is paid and delivered in full. -/
lemma MemberOrder.Backed.booked (h : o.Backed db) (hfilled : filledQty result ≤ max 0 o.quantity)
    (hbooked : booked o result tradingDate = some trade) (hs : db.Solvent opening)
    (hmembers : ∀ m, (db.members m).isSome = (opening m).isSome) :
    (db.recordTrade trade).Solvent opening := by
  obtain ⟨hmember, hsymbol, hside, hprice, hquantity⟩ := booked_spec hbooked
  have hle : trade.quantity ≤ o.quantity := by
    have hpos := trade.quantity_pos
    rw [hquantity, bookedQty] at hpos ⊢
    omega
  have hcovers : db.Covers trade := by
    intro hsell _
    rw [hmember, hsymbol]
    exact hle.trans (h.sell (hside ▸ hsell))
  refine ⟨fun m capital hcapital => ?_, (hs.consistent.recordTrade_iff hmembers).mpr hcovers⟩
  by_cases hm : trade.memberId = m
  · subst hm
    have hsome : (db.members trade.memberId).isSome = true := by
      rw [← Database.isSome_members_recordTrade, hcapital]
      rfl
    obtain ⟨c, hc⟩ := Option.isSome_iff_exists.mp hsome
    have hc0 := hs.capital _ c hc
    rw [hcovers.members hsome, hc] at hcapital
    obtain rfl := Option.some.inj hcapital
    have hq : (0 : ℚ) ≤ trade.quantity := by exact_mod_cast trade.quantity_pos.le
    have hqo : (trade.quantity : ℚ) ≤ o.quantity := by exact_mod_cast hle
    rw [BookedTrade.payment, if_pos rfl, hprice]
    cases hs' : trade.side with
    | buy =>
      have hcost := h.buy (hside ▸ hs') c (hmember ▸ hc)
      have hless := mul_le_mul_of_nonneg_right hqo h.price
      dsimp only
      linarith
    | sell =>
      dsimp only
      exact add_nonneg hc0 (mul_nonneg hq h.price)
  · rw [Database.recordTrade_members_of_ne hm] at hcapital
    exact hs.capital m capital hcapital

/-- It leaves the other members as they are. -/
lemma recordTrade_of_ne {m : M} (hm : trade.memberId ≠ m) :
    (db.recordTrade trade).members m = db.members m ∧
      ∀ symbol, (db.recordTrade trade).held m symbol = db.held m symbol := by
  refine ⟨Database.recordTrade_members_of_ne hm, fun symbol => ?_⟩
  rw [Database.recordTrade_held, BookedTrade.delivery, if_neg fun h => hm h.1, add_zero]
  exact max_eq_right Database.held_nonneg

end

/-! ### Runs -/

namespace Desks

/-- What holds in every run. -/
structure Inv [DecidableEq M] (opening : Table M ℚ) (s : Desks ι M D) : Prop where
  inStep : s.engine.InStep
  below : s.engine.TradesBelow
  members : ∀ memberId, (s.db.members memberId).isSome = (opening memberId).isSome
  solvent : s.db.Solvent opening
  alone : s.Alone
  backed : ∀ i, (s.jobs i).Backed s.db

section

variable [DecidableEq ι] [DecidableEq M] {s s' : Desks ι M D} {opening : Table M ℚ}
  {thread : ι} {job : Job M} {symbols : List (ℕ × List Char)}

/-- A thread goes on with an order that it has under way, or with one of a member that has none. -/
lemma Inv.of_thread (h : s.Inv opening) (hinStep : s'.engine.InStep)
    (hbelow : s'.engine.TradesBelow) (hdb : s'.db = s.db)
    (hjobs : s'.jobs = Function.update s.jobs thread job)
    (halone : ∀ m, job.memberId = some m → ∀ j, (s.jobs j).memberId = some m → j = thread)
    (hbacked : job.Backed s.db) : s'.Inv opening where
  inStep := hinStep
  below := hbelow
  members m := hdb ▸ h.members m
  solvent := hdb ▸ h.solvent
  alone i j m hi hj := by
    rw [hjobs, Function.update_apply] at hi hj
    split at hi
    case isTrue hithread =>
      split at hj
      case isTrue hjthread => rw [hithread, hjthread]
      case isFalse hjthread => exact absurd (halone m hi j hj) hjthread
    case isFalse hithread =>
      split at hj
      case isTrue hjthread => exact absurd (halone m hj i hi) hithread
      case isFalse hjthread => exact h.alone i j m hi hj
  backed i := by
    rw [hdb, hjobs, Function.update_apply]
    split
    · exact hbacked
    · exact h.backed i

omit [DecidableEq ι] in
/-- The order that a thread has under way is the only one of the member. -/
lemma Inv.alone_of_eq (h : s.Inv opening) {m : M} (hm : (s.jobs thread).memberId = some m) {j : ι}
    (hj : (s.jobs j).memberId = some m) : j = thread := h.alone j thread m hj hm

lemma Inv.goOn (h : s.Inv opening)
    (hmember : ∀ m, job.memberId = some m → (s.jobs thread).memberId = some m)
    (hbacked : job.Backed s.db) : (s.goOn thread job).Inv opening :=
  h.of_thread h.inStep h.below rfl rfl
    (fun m hm _ hj => h.alone_of_eq (hmember m hm) hj) hbacked

lemma Inv.post (h : s.Inv opening) {o : MemberOrder M ℚ} (ho : s.jobs thread = .decided o) :
    (s.post symbols thread o).1.Inv opening := by
  rw [Desks.post]
  cases hsymbol : symbolNamed symbols o.symbol with
  | none => exact h.goOn (by simp [Job.memberId]) trivial
  | some symbolIdx =>
    simp only [MatchingEngine.handle_submit (Dashboard.mem_of_symbolNamed hsymbol)]
    have hanswered := MatchingEngine.submitOrder_answered h.inStep h.below symbolIdx o.submission
    have hbacked : o.Backed s.db := by
      have hjob := h.backed thread
      rwa [ho] at hjob
    refine h.of_thread (h.inStep.submitOrder symbolIdx o.submission) hanswered.below rfl rfl
      (fun m hm j hj => ?_) ⟨hbacked, ?_⟩
    · refine h.alone_of_eq ?_ hj
      rw [ho]
      exact hm
    · exact filledQty_le hanswered

variable [DecidableEq D]

/-- The order of a thread is booked, which no other order under way is about. -/
lemma Inv.book (h : s.Inv opening) {o : MemberOrder M ℚ} {result : Dashboard.Order ℚ}
    {tradingDate : D} {trade : BookedTrade M (List Char) D ℚ}
    (ho : s.jobs thread = .answered o result)
    (htrade : booked o result tradingDate = some trade) :
    ({ s with db := s.db.recordTrade trade }.goOn thread .idle).Inv opening := by
  obtain ⟨hbacked, hfilled⟩ : o.Backed s.db ∧ filledQty result ≤ max 0 o.quantity := by
    have hjob := h.backed thread
    rwa [ho] at hjob
  have hmember : (s.jobs thread).memberId = some trade.memberId := by
    rw [ho, (booked_spec htrade).1]
    rfl
  have hothers : ∀ i, i ≠ thread →
      (({ s with db := s.db.recordTrade trade }.goOn thread .idle).jobs i) = s.jobs i :=
    fun i hi => Function.update_of_ne hi ..
  have hidle : ({ s with db := s.db.recordTrade trade }.goOn thread .idle).jobs thread = .idle :=
    Function.update_self ..
  refine ⟨h.inStep, h.below, fun m => Database.isSome_members_recordTrade.trans (h.members m),
    hbacked.booked hfilled htrade h.solvent h.members, fun i j m hi hj => ?_, fun i => ?_⟩
  · by_cases hithread : i = thread
    · rw [hithread, hidle] at hi
      cases hi
    · by_cases hjthread : j = thread
      · rw [hjthread, hidle] at hj
        cases hj
      · rw [hothers i hithread] at hi
        rw [hothers j hjthread] at hj
        exact h.alone i j m hi hj
  · by_cases hithread : i = thread
    · rw [hithread, hidle]
      trivial
    · rw [hothers i hithread]
      refine (h.backed i).congr fun m hm => recordTrade_of_ne ?_
      rintro rfl
      exact hithread (h.alone i thread _ hm hmember)

lemma Inv.next (h : s.Inv opening) {tradingDate : D}
    (hcareful : s.Careful (.next thread tradingDate)) :
    (s.next symbols thread tradingDate).1.Inv opening := by
  rw [Desks.next]
  split
  case h_1 => exact h
  case h_2 m intent hthread =>
    split
    · exact h.goOn (by simp [Job.memberId]) trivial
    · rename_i capital hcapital
      refine h.goOn (fun m' hm => ?_) hcapital
      rw [hthread]
      exact hm
  case h_3 m intent capital hthread =>
    have hcapital : s.db.members m = some capital := by
      have hjob := h.backed thread
      rwa [hthread] at hjob
    have hfair : intent.Fair capital (s.db.getHoldings m) := by
      have hjob : (s.jobs thread).Fair s.db := hcareful
      rwa [hthread] at hjob
    split
    · exact h.goOn (by simp [Job.memberId]) trivial
    · rename_i o ho
      refine h.goOn (fun m' hm => ?_)
        (Intent.backed hcapital hfair ho)
      rw [hthread, ← hm]
      exact congrArg some (Intent.memberId_order ho).symm
  case h_4 o hthread => exact h.post hthread
  case h_5 o result hthread =>
    split
    · exact h.goOn (by simp [Job.memberId]) trivial
    · exact h.book hthread ‹_›

lemma Inv.step (h : s.Inv opening) {input : DeskInput ι M D} (hcareful : s.Careful input) :
    (s.step symbols input).1.Inv opening := by
  cases input with
  | begin thread m intent =>
    rw [Desks.step]
    split
    · refine h.of_thread h.inStep h.below rfl rfl (fun m' hm j hj => ?_) trivial
      obtain rfl : m = m' := Option.some.inj hm
      exact absurd hj (hcareful j)
    · exact h
  | next thread tradingDate => exact h.next hcareful
  | fail thread => exact h.goOn (by simp [Job.memberId]) trivial
  | other request =>
    exact ⟨h.inStep.handle _ request, (h.below.handle h.inStep _ request).2, h.members, h.solvent,
      h.alone, h.backed⟩

end

end Desks

section

variable [DecidableEq ι] [DecidableEq M] [DecidableEq D]

omit [DecidableEq D] in
lemma foldl_upsert_nonneg {members : List (M × ℚ)} (hmembers : ∀ m ∈ members, 0 ≤ m.2)
    {rows : Table M ℚ} (hrows : ∀ m c, rows m = some c → 0 ≤ c) {memberId : M} {capital : ℚ}
    (h : members.foldl (fun rows m => rows.upsert m.1 m.2 id) rows memberId = some capital) :
    0 ≤ capital := by
  induction members generalizing rows with
  | nil => exact hrows memberId capital h
  | cons m members ih =>
    refine ih (fun m' hm' => hmembers m' (List.mem_cons_of_mem _ hm')) (fun m' c hc => ?_) h
    dsimp only at hc
    by_cases heq : m' = m.1
    · subst heq
      cases hrow : rows m.1 with
      | none =>
        rw [Table.upsert_of_none hrow] at hc
        exact Option.some.inj hc ▸ hmembers m List.mem_cons_self
      | some old =>
        rw [Table.upsert_of_some hrow] at hc
        exact Option.some.inj hc ▸ hrows m.1 old hrow
    · rw [Table.upsert_of_ne heq] at hc
      exact hrows m' c hc

omit [DecidableEq D] in
/-- Members that begin without a debt have none in new tables. -/
lemma solvent_initDb {members : List (M × ℚ)} (hmembers : ∀ m ∈ members, 0 ≤ m.2) :
    (Database.initDb members : Database M (List Char) D ℚ).Solvent
      (Database.addMembers members) where
  capital _ _ hcapital := foldl_upsert_nonneg hmembers (by simp) hcapital
  consistent := by
    refine ⟨fun m capital h => ?_, fun _ _ _ => rfl⟩
    simpa [Database.initDb, loggedValue] using h

omit [DecidableEq ι] [DecidableEq D] in
lemma Desks.inv_initDb {members : List (M × ℚ)} (hmembers : ∀ m ∈ members, 0 ≤ m.2) :
    ({ db := Database.initDb members } : Desks ι M D).Inv (Database.addMembers members) where
  inStep := .empty
  below := by simp [MatchingEngine.TradesBelow]
  members := fun _ => rfl
  solvent := solvent_initDb hmembers
  alone := by simp [Desks.Alone, Job.memberId]
  backed := fun _ => trivial

end

/-- An offer, and two purchases, one after the other. -/
def twoPurchases : List (DeskInput Bool ℕ ℕ) :=
  [.other (.submit 1 ⟨.sell, .limit, 100, 16, .day, []⟩),
    .begin false 0 (.human ['X'] (some .buy) 8 100 ['A'])] ++
  List.replicate 4 (.next false 0) ++ [.begin true 0 (.human ['X'] (some .buy) 2 100 ['B'])] ++
  List.replicate 4 (.next true 0)

/-- Two purchases at the same time, each of which the capital covers. -/
example :
    let buy (thread : Bool) :=
      DeskInput.begin (D := ℕ) thread 0 (.human ['X'] (some .buy) 8 100 [])
    let next (n : ℕ) := List.replicate n [.next false 0, .next true 0]
    let inputs := [.other (.submit 1 ⟨.sell, .limit, 100, 16, .day, []⟩), buy false, buy true]
    (Machine.run (Desks.step [(1, ['X'])]) { db := Database.initDb [(0, 1000)] }
      (inputs ++ (next 4).flatten)).1.db.members 0 = some (-600) := by
  decide +kernel

end EuNEx.Clearing
