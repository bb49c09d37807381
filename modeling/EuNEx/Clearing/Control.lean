import EuNEx.Clearing.Desks
import Mathlib.Data.Finset.Basic

/-!
# Control of the AI trader

`start`, `stop`, `suspend`, `resume`, `set_human_active`, `set_human_inactive` and
`_simulation_loop` of `clearing_house/ch_ai_trader.py`, which the routes of `clearing_house/app.py`
call. Each `start` starts one more loop. The loops read the flags one at a time, so what is switched
off is not off at once: a loop goes on with the member that it has checked. An order of a loop is
that of a desk, and so is an order on the page. The loop that collects prices is not followed, as
its prices come with what a strategy is given.
-/

namespace EuNEx.Clearing

variable {ι M D : Type*}

/-- Where a loop stands. -/
inductive Loop (M : Type*) where
  /-- before `while self.running` -/
  | checking
  /-- before `if not self.suspended` -/
  | passing
  /-- before the next of these members -/
  | visiting (members : List M)
  /-- the member is not active, before `if not self.running` -/
  | asking (memberId : M) (members : List M)
  /-- in `_trade_for_member` -/
  | trading (memberId : M) (members : List M)
  /-- so many half seconds are left of the interval -/
  | waiting (n : ℕ)
  | ended
deriving DecidableEq, Repr

/-- The AI trader and the desks. A loop has the desk of its number, and the page has the others. -/
structure ClearingHouse (ι M D : Type*) where
  desks : Desks (ℕ ⊕ ι) M D
  running : Bool := false
  suspended : Bool := false
  humanActive : Finset M := ∅
  loops : List (Loop M) := []

/-- What happens. -/
inductive HouseInput (ι M D : Type*) where
  | start
  | stop
  | suspend
  | resume
  /-- a login on the page -/
  | login (memberId : M)
  | logout (memberId : M)
  /-- a loop takes its next step -/
  | turn (loop : ℕ) (intent : Intent) (tradingDate : D)
  /-- an order of a member is entered on the page -/
  | order (page : ι) (memberId : M) (intent : Intent)
  /-- the page takes its next step with it -/
  | page (page : ι) (tradingDate : D)
  /-- an exception in the order of a thread -/
  | fail (thread : ℕ ⊕ ι)
  /-- a request of another participant -/
  | other (request : Dashboard.Request ℚ)

namespace ClearingHouse

section

-- `CH_MEMBERS`, the half seconds of an interval, and the symbols of the engine
variable [DecidableEq ι] [DecidableEq M] [DecidableEq D] (members : List M) (interval : ℕ)
  (symbols : List (ℕ × List Char)) (s : ClearingHouse ι M D)

/-- A loop goes on here. -/
def goTo (n : ℕ) (loop : Loop M) : ClearingHouse ι M D := { s with loops := s.loops.set n loop }

/-- A desk takes a step. -/
def atDesk (input : DeskInput (ℕ ⊕ ι) M D) :
    ClearingHouse ι M D × List (DeskEvent (ℕ ⊕ ι) M D) :=
  let r := s.desks.step symbols input
  ({ s with desks := r.1 }, r.2)

/-- The next step of a loop. -/
def turn (n : ℕ) (intent : Intent) (tradingDate : D) :
    Loop M → ClearingHouse ι M D × List (DeskEvent (ℕ ⊕ ι) M D)
  | .checking => (s.goTo n (if s.running then .passing else .ended), [])
  | .passing => (s.goTo n (if s.suspended then .waiting interval else .visiting members), [])
  | .visiting [] => (s.goTo n (.waiting interval), [])
  | .visiting (m :: ms) =>
    (s.goTo n (if m ∈ s.humanActive then .visiting ms else .asking m ms), [])
  | .asking m ms =>
    if s.running then (s.goTo n (.trading m ms)).atDesk symbols (.begin (.inl n) m intent)
    else (s.goTo n (.waiting interval), [])
  | .trading _ ms =>
    match s.desks.jobs (.inl n) with
    | .idle => (s.goTo n (.visiting ms), [])
    | _ => s.atDesk symbols (.next (.inl n) tradingDate)
  | .waiting 0 => (s.goTo n .checking, [])
  | .waiting (k + 1) => (s.goTo n (if s.running then .waiting k else .ended), [])
  | .ended => (s, [])

/-- A step. -/
def step : HouseInput ι M D → ClearingHouse ι M D × List (DeskEvent (ℕ ⊕ ι) M D)
  | .start =>
    ({ s with running := true, suspended := false, loops := s.loops ++ [.checking] }, [])
  | .stop => ({ s with running := false, suspended := false }, [])
  | .suspend => ({ s with suspended := true }, [])
  | .resume => ({ s with suspended := false }, [])
  | .login m => ({ s with humanActive := insert m s.humanActive }, [])
  | .logout m => ({ s with humanActive := s.humanActive.erase m }, [])
  | .turn n intent tradingDate =>
    match s.loops[n]? with
    | some loop => s.turn members interval symbols n intent tradingDate loop
    | none => (s, [])
  | .order page m intent => s.atDesk symbols (.begin (.inr page) m intent)
  | .page page tradingDate => s.atDesk symbols (.next (.inr page) tradingDate)
  | .fail thread => s.atDesk symbols (.fail thread)
  | .other request => s.atDesk symbols (.other request)

end

end ClearingHouse

/-! ### What should hold -/

/-- The member of an order that may still be posted. -/
def Job.pending : Job M → List M
  | .begun memberId _ | .member memberId _ _ => [memberId]
  | .decided order => [order.memberId]
  | .idle | .answered _ _ => []

/-- The steps to the end of an order, at most. -/
def Job.stepsLeft : Job M → ℕ
  | .idle => 0
  | .answered _ _ => 1
  | .decided _ => 2
  | .member _ _ _ => 3
  | .begun _ _ => 4

/-- The member whose order a thread has posted. -/
def DeskEvent.postedBy [DecidableEq ι] (thread : ι) : DeskEvent ι M D → Option M
  | .posted i order => if i = thread then some order.memberId else none
  | .booked _ _ => none

/-- The members whose orders a thread has posted. -/
def ordersOf [DecidableEq ι] (thread : ι) (h : List (DeskEvent ι M D)) : List M :=
  h.filterMap (DeskEvent.postedBy thread)

/-- The members that are still to be visited, one that has been found not to be active included. -/
def Loop.toVisit : Loop M → List M
  | .visiting members | .trading _ members => members
  | .asking memberId members => memberId :: members
  | .checking | .passing | .waiting _ | .ended => []

/-- The member that has been found not to be active. -/
def Loop.asked : Loop M → List M
  | .asking memberId _ => [memberId]
  | _ => []

/-- The steps of a loop to its end, at most, when the trader has been stopped. -/
def Loop.stepsLeft (members : List M) (job : Job M) : Loop M → ℕ
  | .checking => 1
  | .passing => members.length + 4
  | .visiting ms => ms.length + 3
  | .asking _ _ => 3
  | .trading _ ms => job.stepsLeft + ms.length + 4
  | .waiting _ => 2
  | .ended => 0

namespace ClearingHouse

variable (s : ClearingHouse ι M D) (n : ℕ)

/-- The member for whom a loop may post an order whatever is switched off. -/
def inHand : List M := (s.desks.jobs (.inl n)).pending

/-- The members that a loop has still to visit. -/
def toVisit : List M := (s.loops[n]?).elim [] Loop.toVisit

/-- The member that a loop has found not to be active. -/
def asked : List M := (s.loops[n]?).elim [] Loop.asked

/-- How many steps a loop can still take when the trader has been stopped. -/
def stepsLeft (members : List M) : ℕ :=
  (s.loops[n]?).elim 0 (Loop.stepsLeft members (s.desks.jobs (.inl n)))

/-- The steps that a loop takes. -/
def turns (inputs : List (HouseInput ι M D)) : ℕ :=
  inputs.countP fun
    | .turn k _ _ => k = n
    | _ => false

end ClearingHouse

/-! ### Desks -/

/-- The thread that takes a step. -/
def DeskInput.thread : DeskInput ι M D → Option ι
  | .begin thread _ _ | .next thread _ | .fail thread => some thread
  | .other _ => none

namespace Desks

variable [DecidableEq ι] [DecidableEq M] [DecidableEq D] {s : Desks ι M D}
  {symbols : List (ℕ × List Char)} {thread i : ι} {job : Job M}

omit [DecidableEq M] [DecidableEq D] in
lemma goOn_self : (s.goOn thread job).jobs thread = job := Function.update_self ..

omit [DecidableEq M] [DecidableEq D] in
lemma goOn_of_ne (hi : i ≠ thread) : (s.goOn thread job).jobs i = s.jobs i :=
  Function.update_of_ne hi ..

/-- What a thread can still post is posted by it or not. -/
lemma pending_next {tradingDate : D} :
    (ordersOf thread (s.next symbols thread tradingDate).2
      ++ ((s.next symbols thread tradingDate).1.jobs thread).pending).Sublist
        (s.jobs thread).pending := by
  rw [next]
  split
  case h_1 => exact List.Sublist.refl _
  case h_2 m intent hjob =>
    rw [hjob]
    split
    · rw [goOn_self]
      exact List.nil_sublist _
    · rw [goOn_self]
      exact List.Sublist.refl _
  case h_3 m intent capital hjob =>
    rw [hjob]
    split
    · rw [goOn_self]
      exact List.nil_sublist _
    · rename_i o ho
      rw [goOn_self]
      exact (Intent.memberId_order ho).symm ▸ List.Sublist.refl _
  case h_4 o hjob =>
    rw [hjob, post]
    cases Dashboard.symbolNamed symbols o.symbol with
    | none =>
      rw [goOn_self]
      exact List.nil_sublist _
    | some symbolIdx =>
      dsimp only
      split <;> simp [goOn_self, ordersOf, DeskEvent.postedBy, Job.pending]
  case h_5 o result hjob =>
    rw [hjob]
    split <;> simp [goOn_self, ordersOf, DeskEvent.postedBy, Job.pending]

/-- An order that is under way stays that of the member. -/
lemma memberId_next {tradingDate : D}
    (hjob : (s.next symbols thread tradingDate).1.jobs thread ≠ .idle) :
    ((s.next symbols thread tradingDate).1.jobs thread).memberId = (s.jobs thread).memberId := by
  rw [next] at hjob ⊢
  split at hjob
  case h_1 => rfl
  case h_2 m intent hthread =>
    rw [hthread]
    split at hjob
    · exact absurd goOn_self hjob
    · rw [goOn_self]
      rfl
  case h_3 m intent capital hthread =>
    rw [hthread]
    split at hjob
    · exact absurd goOn_self hjob
    · rename_i o ho
      rw [goOn_self]
      exact congrArg some (Intent.memberId_order ho)
  case h_4 o hthread =>
    rw [hthread]
    rw [post] at hjob ⊢
    split at hjob
    · exact absurd goOn_self hjob
    · split at hjob
      · rw [goOn_self]
        rfl
      · exact absurd goOn_self hjob
  case h_5 o result hthread =>
    split at hjob <;> exact absurd goOn_self hjob

/-- The steps of an order come to an end. -/
lemma stepsLeft_next (symbols : List (ℕ × List Char)) (tradingDate : D)
    (hjob : s.jobs thread ≠ .idle) :
    ((s.next symbols thread tradingDate).1.jobs thread).stepsLeft < (s.jobs thread).stepsLeft := by
  rw [next]
  split
  case h_1 hidle => exact absurd hidle hjob
  case h_2 m intent hthread =>
    rw [hthread]
    split <;> simp [goOn_self, Job.stepsLeft]
  case h_3 m intent capital hthread =>
    rw [hthread]
    split <;> simp [goOn_self, Job.stepsLeft]
  case h_4 o hthread =>
    rw [hthread, post]
    split
    · simp [goOn_self, Job.stepsLeft]
    · split <;> simp [goOn_self, Job.stepsLeft]
  case h_5 o result hthread =>
    rw [hthread]
    split <;> simp [goOn_self, Job.stepsLeft]

omit [DecidableEq M] [DecidableEq D] in
lemma frame_goOn {e : List (DeskEvent ι M D)} (hi : i ≠ thread) (he : ordersOf i e = []) :
    (s.goOn thread job).jobs i = s.jobs i ∧ ordersOf i e = [] := ⟨goOn_of_ne hi, he⟩

/-- A step of another thread. -/
lemma next_of_ne {tradingDate : D} (hi : i ≠ thread) :
    (s.next symbols thread tradingDate).1.jobs i = s.jobs i ∧
      ordersOf i (s.next symbols thread tradingDate).2 = [] := by
  rw [next]
  split
  case h_1 => exact ⟨rfl, rfl⟩
  case h_2 => split <;> exact frame_goOn hi rfl
  case h_3 => split <;> exact frame_goOn hi rfl
  case h_4 o hjob =>
    rw [post]
    split
    · exact frame_goOn hi rfl
    · split <;> exact ⟨goOn_of_ne hi, by simp [ordersOf, DeskEvent.postedBy, hi.symm]⟩
  case h_5 => split <;> exact ⟨goOn_of_ne hi, rfl⟩

/-- A step of another thread, or of none. -/
lemma step_of_ne (symbols : List (ℕ × List Char)) {input : DeskInput ι M D}
    (hi : input.thread ≠ some i) :
    (s.step symbols input).1.jobs i = s.jobs i ∧
      ordersOf i (s.step symbols input).2 = [] := by
  cases input with
  | begin thread m intent =>
    have hne : i ≠ thread := fun heq => hi (congrArg some heq.symm)
    rw [step]
    split
    · exact frame_goOn hne rfl
    · exact ⟨rfl, rfl⟩
  | next thread tradingDate => exact next_of_ne fun heq => hi (congrArg some heq.symm)
  | fail thread => exact frame_goOn (fun heq => hi (congrArg some heq.symm)) rfl
  | other request => exact ⟨rfl, rfl⟩

/-- A thread begins. -/
lemma pending_begin (s : Desks ι M D) (symbols : List (ℕ × List Char)) (thread : ι) (m : M)
    (intent : Intent) :
    ordersOf thread (s.step symbols (.begin thread m intent)).2 = [] ∧
      (((s.step symbols (.begin thread m intent)).1.jobs thread).pending = [m] ∨
        (s.step symbols (.begin thread m intent)).1.jobs thread = s.jobs thread) := by
  rw [step]
  split
  · exact ⟨rfl, Or.inl (by rw [goOn_self]; rfl)⟩
  · exact ⟨rfl, Or.inr rfl⟩

end Desks

namespace ClearingHouse

section

variable [DecidableEq ι] [DecidableEq M] [DecidableEq D] {s : ClearingHouse ι M D}
  {members : List M} {interval : ℕ} {symbols : List (ℕ × List Char)} {n k : ℕ}
  {loop loop' : Loop M} {intent : Intent} {tradingDate : D} {input : HouseInput ι M D}

/-! ### One loop -/

omit [DecidableEq ι] [DecidableEq M] [DecidableEq D] in
lemma goTo_self (hloop : s.loops[n]? = some loop) :
    (s.goTo n loop').loops[n]? = some loop' :=
  List.getElem?_set_self (List.getElem?_eq_some_iff.mp hloop).1

omit [DecidableEq ι] [DecidableEq M] [DecidableEq D] in
lemma goTo_of_ne (hk : k ≠ n) : (s.goTo k loop').loops[n]? = s.loops[n]? :=
  List.getElem?_set_ne hk

omit [DecidableEq ι] [DecidableEq M] [DecidableEq D] in
lemma toVisit_of_some (hloop : s.loops[n]? = some loop) : s.toVisit n = loop.toVisit := by
  rw [toVisit, hloop]
  rfl

omit [DecidableEq ι] [DecidableEq M] [DecidableEq D] in
lemma asked_of_some (hloop : s.loops[n]? = some loop) : s.asked n = loop.asked := by
  rw [asked, hloop]
  rfl

/-- What a step of others leaves of a loop. -/
structure Frame (n : ℕ) (s s' : ClearingHouse ι M D) (e : List (DeskEvent (ℕ ⊕ ι) M D)) :
    Prop where
  loop : s'.loops[n]? = s.loops[n]?
  job : s'.desks.jobs (.inl n) = s.desks.jobs (.inl n)
  orders : ordersOf (.inl n) e = []

lemma frame_atDesk {s' : ClearingHouse ι M D} {input : DeskInput (ℕ ⊕ ι) M D}
    (hloop : s'.loops[n]? = s.loops[n]?) (hdesks : s'.desks = s.desks)
    (hthread : input.thread ≠ some (.inl n)) :
    Frame n s (s'.atDesk symbols input).1 (s'.atDesk symbols input).2 := by
  obtain ⟨hjob, horders⟩ := Desks.step_of_ne (s := s'.desks) symbols hthread
  refine ⟨hloop, ?_, horders⟩
  rw [← hdesks]
  exact hjob

/-- A step of another loop. -/
lemma turn_frame (hk : k ≠ n) : Frame n s
    (s.turn members interval symbols k intent tradingDate loop).1
    (s.turn members interval symbols k intent tradingDate loop).2 := by
  have hother : (Sum.inl k : ℕ ⊕ ι) ≠ .inl n := fun heq => hk (Sum.inl.inj heq)
  cases loop with
  | checking | passing => exact ⟨goTo_of_ne hk, rfl, rfl⟩
  | ended => exact ⟨rfl, rfl, rfl⟩
  | visiting ms => cases ms <;> exact ⟨goTo_of_ne hk, rfl, rfl⟩
  | asking m ms =>
    rw [turn]
    split
    · exact frame_atDesk (goTo_of_ne hk) rfl fun heq => hother (Option.some.inj heq)
    · exact ⟨goTo_of_ne hk, rfl, rfl⟩
  | trading m ms =>
    rw [turn]
    split
    · exact ⟨goTo_of_ne hk, rfl, rfl⟩
    · exact frame_atDesk rfl rfl fun heq => hother (Option.some.inj heq)
  | waiting i => cases i <;> exact ⟨goTo_of_ne hk, rfl, rfl⟩

/-- Whatever is not a step of the loop, the start of one, or an exception in its order. -/
lemma step_frame (hstart : input ≠ .start) (hfail : input ≠ .fail (.inl n))
    (hturn : ∀ intent tradingDate, input ≠ .turn n intent tradingDate) :
    Frame n s (s.step members interval symbols input).1
      (s.step members interval symbols input).2 := by
  cases input with
  | start => exact absurd rfl hstart
  | stop | suspend | resume | login | logout => exact ⟨rfl, rfl, rfl⟩
  | turn k intent tradingDate =>
    have hk : k ≠ n := fun heq => hturn intent tradingDate (heq ▸ rfl)
    rw [step]
    split
    · exact turn_frame hk
    · exact ⟨rfl, rfl, rfl⟩
  | order page m intent => exact frame_atDesk rfl rfl (by simp [DeskInput.thread])
  | page page tradingDate => exact frame_atDesk rfl rfl (by simp [DeskInput.thread])
  | fail thread =>
    refine frame_atDesk rfl rfl fun heq => hfail ?_
    rw [Option.some.inj heq]
  | other request => exact frame_atDesk rfl rfl (by simp [DeskInput.thread])

/-! ### Trading that is switched off -/

/-- The trader has been stopped or suspended. -/
def Held (s : ClearingHouse ι M D) : Prop := s.running = false ∨ s.suspended = true

/-- The members of the orders that a loop may still post when the trader is held. -/
def left (s : ClearingHouse ι M D) (n : ℕ) : List M :=
  s.inHand n ++ if s.running then s.toVisit n else []

omit [DecidableEq ι] [DecidableEq M] [DecidableEq D] in
lemma left_goTo (hloop : s.loops[n]? = some loop)
    (hvisit : s.running = true → loop'.toVisit.Sublist loop.toVisit) :
    ((s.goTo n loop').left n).Sublist (s.left n) := by
  rw [left, left, toVisit_of_some (goTo_self hloop), toVisit_of_some hloop]
  refine List.Sublist.append_left ?_ _
  show (if s.running = true then loop'.toVisit else []).Sublist _
  split
  · exact hvisit ‹_›
  · exact List.nil_sublist _

lemma left_turn (hheld : s.Held) (hloop : s.loops[n]? = some loop) :
    (ordersOf (.inl n) (s.turn members interval symbols n intent tradingDate loop).2
      ++ (s.turn members interval symbols n intent tradingDate loop).1.left n).Sublist
        (s.left n) := by
  cases loop with
  | checking =>
    refine left_goTo hloop fun _ => ?_
    split <;> exact List.nil_sublist _
  | passing =>
    refine left_goTo hloop fun hrunning => ?_
    have hsuspended : s.suspended = true := hheld.resolve_left (by simp [hrunning])
    rw [if_pos hsuspended]
    exact List.nil_sublist _
  | visiting ms =>
    cases ms with
    | nil => exact left_goTo hloop fun _ => List.nil_sublist _
    | cons m ms =>
      refine left_goTo hloop fun _ => ?_
      split
      · exact List.sublist_cons_self m ms
      · exact List.Sublist.refl _
  | asking m ms =>
    rw [turn]
    split
    case isTrue hrunning =>
      obtain ⟨horders, hjob⟩ := Desks.pending_begin s.desks symbols (.inl n) m intent
      have hvisit : (s.goTo n (.trading m ms)).toVisit n = ms :=
        toVisit_of_some (goTo_self hloop)
      show (ordersOf (.inl n) (s.desks.step symbols _).2
        ++ (((s.desks.step symbols _).1.jobs (.inl n)).pending
          ++ if s.running then (s.goTo n (.trading m ms)).toVisit n else [])).Sublist _
      rw [horders, hvisit, left, toVisit_of_some hloop, if_pos hrunning, if_pos hrunning,
        List.nil_append]
      rcases hjob with hjob | hjob
      · rw [hjob]
        exact List.sublist_append_right ..
      · rw [hjob]
        exact (List.sublist_cons_self m ms).append_left _
    case isFalse => exact left_goTo hloop fun _ => List.nil_sublist _
  | trading m ms =>
    rw [turn]
    split
    · exact left_goTo hloop fun _ => List.Sublist.refl _
    · show (ordersOf (.inl n) (s.desks.next symbols _ _).2
        ++ (((s.desks.next symbols _ _).1.jobs (.inl n)).pending ++ _)).Sublist _
      rw [← List.append_assoc]
      exact Desks.pending_next.append_right _
  | waiting i =>
    cases i with
    | zero => exact left_goTo hloop fun _ => List.nil_sublist _
    | succ i =>
      refine left_goTo hloop fun _ => ?_
      split <;> exact List.nil_sublist _
  | ended => exact List.Sublist.refl _

omit [DecidableEq M] [DecidableEq D] in
lemma Frame.left {s' : ClearingHouse ι M D} {e : List (DeskEvent (ℕ ⊕ ι) M D)}
    (h : Frame n s s' e) (hrunning : s'.running = true → s.running = true) :
    (ordersOf (.inl n) e ++ s'.left n).Sublist (s.left n) := by
  rw [h.orders, List.nil_append, ClearingHouse.left, ClearingHouse.left, inHand, h.job, toVisit,
    h.loop]
  refine List.Sublist.append_left ?_ _
  cases hs : s'.running with
  | true =>
    rw [hrunning hs]
    exact List.Sublist.refl _
  | false => exact List.nil_sublist _

/-- A loop leaves the switches as they are. -/
lemma switches_turn : (s.turn members interval symbols n intent tradingDate loop).1.running
      = s.running ∧
    (s.turn members interval symbols n intent tradingDate loop).1.suspended = s.suspended ∧
    (s.turn members interval symbols n intent tradingDate loop).1.humanActive
      = s.humanActive := by
  cases loop with
  | checking | passing | ended => exact ⟨rfl, rfl, rfl⟩
  | visiting ms => cases ms <;> exact ⟨rfl, rfl, rfl⟩
  | asking m ms | trading m ms =>
    rw [turn]
    split <;> exact ⟨rfl, rfl, rfl⟩
  | waiting i => cases i <;> exact ⟨rfl, rfl, rfl⟩

/-- Only `start` sets the trader running. -/
lemma running_of_step (hstart : input ≠ .start)
    (h : (s.step members interval symbols input).1.running = true) : s.running = true := by
  cases input with
  | start => exact absurd rfl hstart
  | stop => cases h
  | turn k intent tradingDate =>
    rw [step] at h
    split at h
    · rwa [switches_turn.1] at h
    · exact h
  | suspend | resume | login | logout | order | page | fail | other => exact h

/-- Only `start` and `resume` set a suspended trader going again. -/
lemma Held.step (h : s.Held) (hstart : input ≠ .start)
    (hresume : input = .resume → s.running = false) :
    (s.step members interval symbols input).1.Held := by
  cases input with
  | start => exact absurd rfl hstart
  | stop => exact Or.inl rfl
  | suspend => exact Or.inr rfl
  | resume => exact Or.inl (hresume rfl)
  | turn k intent tradingDate =>
    rw [ClearingHouse.step]
    split
    · rw [Held, switches_turn.1, switches_turn.2.1]
      exact h
    · exact h
  | login | logout | order | page | fail | other => exact h

/-- What a loop posts comes out of what it has in hand, and of the members of its pass if the
trader is suspended. -/
lemma left_step (h : s.Held) (hstart : input ≠ .start) :
    (ordersOf (.inl n) (s.step members interval symbols input).2
      ++ (s.step members interval symbols input).1.left n).Sublist (s.left n) := by
  by_cases hturn : ∃ intent tradingDate, input = .turn n intent tradingDate
  · obtain ⟨intent, tradingDate, rfl⟩ := hturn
    rw [step]
    split
    · exact left_turn h ‹_›
    · exact List.Sublist.refl _
  by_cases hfail : input = .fail (.inl n)
  · subst hfail
    have hidle : (s.desks.goOn (.inl n) .idle).jobs (.inl n) = .idle := Desks.goOn_self
    show (((s.desks.goOn (.inl n) .idle).jobs (.inl n)).pending ++ _).Sublist _
    rw [hidle]
    exact List.sublist_append_right ..
  exact (step_frame hstart hfail fun intent tradingDate heq =>
    hturn ⟨intent, tradingDate, heq⟩).left (running_of_step hstart)

/-! ### Members that are active -/

/-- What a loop may still post for a member that is active. -/
def due (s : ClearingHouse ι M D) (n : ℕ) (m : M) : List M :=
  (s.inHand n ++ s.asked n).filter (· = m)

omit [DecidableEq ι] [DecidableEq D] in
lemma due_goTo {m : M} (hloop : s.loops[n]? = some loop) (hasked : m ∉ loop'.asked) :
    ((s.goTo n loop').due n m).Sublist (s.due n m) := by
  have hnone : loop'.asked.filter (· = m) = [] := by
    rw [List.filter_eq_nil_iff]
    intro m' hm' heq
    exact hasked (of_decide_eq_true heq ▸ hm')
  rw [due, due, asked_of_some (goTo_self hloop), List.filter_append, List.filter_append, hnone,
    List.append_nil]
  exact List.sublist_append_left ..

lemma due_turn {m : M} (hm : m ∈ s.humanActive) (hloop : s.loops[n]? = some loop) :
    ((ordersOf (.inl n)
        (s.turn members interval symbols n intent tradingDate loop).2).filter (· = m)
      ++ (s.turn members interval symbols n intent tradingDate loop).1.due n m).Sublist
        (s.due n m) := by
  cases loop with
  | checking =>
    refine due_goTo hloop ?_
    split <;> exact List.not_mem_nil
  | passing =>
    refine due_goTo hloop ?_
    split <;> exact List.not_mem_nil
  | visiting ms =>
    cases ms with
    | nil => exact due_goTo hloop List.not_mem_nil
    | cons m' ms =>
      refine due_goTo hloop ?_
      split
      · exact List.not_mem_nil
      · rename_i hm'
        exact fun heq => hm' (List.mem_singleton.mp heq ▸ hm)
  | asking m' ms =>
    rw [turn]
    split
    · obtain ⟨horders, hjob⟩ := Desks.pending_begin s.desks symbols (.inl n) m' intent
      have hasked : (s.goTo n (.trading m' ms)).asked n = [] := asked_of_some (goTo_self hloop)
      show ((ordersOf (.inl n) (s.desks.step symbols _).2).filter (· = m)
        ++ (((s.desks.step symbols _).1.jobs (.inl n)).pending
          ++ (s.goTo n (.trading m' ms)).asked n).filter (· = m)).Sublist _
      rw [horders, hasked, due, asked_of_some hloop, List.append_nil]
      refine List.Sublist.filter _ ?_
      rcases hjob with hjob | hjob
      · rw [hjob]
        exact List.sublist_append_right ..
      · rw [hjob]
        exact List.sublist_append_left ..
    · exact due_goTo hloop List.not_mem_nil
  | trading m' ms =>
    rw [turn]
    split
    · exact due_goTo hloop List.not_mem_nil
    · show ((ordersOf (.inl n) (s.desks.next symbols _ _).2).filter (· = m)
        ++ (((s.desks.next symbols _ _).1.jobs (.inl n)).pending ++ s.asked n).filter
          (· = m)).Sublist _
      rw [← List.filter_append, ← List.append_assoc]
      exact (Desks.pending_next.append_right _).filter _
  | waiting i =>
    cases i with
    | zero => exact due_goTo hloop List.not_mem_nil
    | succ i =>
      refine due_goTo hloop ?_
      split <;> exact List.not_mem_nil
  | ended => exact List.Sublist.refl _

omit [DecidableEq ι] [DecidableEq M] [DecidableEq D] in
/-- A new loop has asked for nobody. -/
lemma asked_start : (s.loops ++ [Loop.checking])[n]?.elim [] Loop.asked = s.asked n := by
  rw [asked, List.getElem?_append]
  split
  · rfl
  · rename_i hge
    rw [List.getElem?_eq_none (not_lt.mp hge)]
    cases hloop : [(Loop.checking : Loop M)][n - s.loops.length]? with
    | none => rfl
    | some loop =>
      rw [List.mem_singleton.mp (List.mem_of_getElem? hloop)]
      rfl

/-- An active member stays active until it logs out. -/
lemma mem_humanActive_step {m : M} (hm : m ∈ s.humanActive) (hlogout : input ≠ .logout m) :
    m ∈ (s.step members interval symbols input).1.humanActive := by
  cases input with
  | login m' => exact Finset.mem_insert_of_mem hm
  | logout m' => exact Finset.mem_erase.mpr ⟨fun heq => hlogout (heq ▸ rfl), hm⟩
  | turn k intent tradingDate =>
    rw [step]
    split
    · rw [switches_turn.2.2]
      exact hm
    · exact hm
  | start | stop | suspend | resume | order | page | fail | other => exact hm

/-- A loop finds no active member to trade for. -/
lemma due_step {m : M} (hm : m ∈ s.humanActive) :
    ((ordersOf (.inl n) (s.step members interval symbols input).2).filter (· = m)
      ++ (s.step members interval symbols input).1.due n m).Sublist (s.due n m) := by
  by_cases hturn : ∃ intent tradingDate, input = .turn n intent tradingDate
  · obtain ⟨intent, tradingDate, rfl⟩ := hturn
    rw [step]
    split
    · exact due_turn hm ‹_›
    · exact List.Sublist.refl _
  by_cases hfail : input = .fail (.inl n)
  · subst hfail
    have hidle : (s.desks.goOn (.inl n) .idle).jobs (.inl n) = .idle := Desks.goOn_self
    show ((((s.desks.goOn (.inl n) .idle).jobs (.inl n)).pending ++ s.asked n).filter
      (· = m)).Sublist _
    rw [hidle]
    exact (List.sublist_append_right ..).filter _
  by_cases hstart : input = .start
  · subst hstart
    show ((s.inHand n ++ (s.loops ++ [Loop.checking])[n]?.elim [] Loop.asked).filter
      (· = m)).Sublist _
    rw [asked_start]
    exact List.Sublist.refl _
  · have hframe : Frame n s (s.step members interval symbols input).1
        (s.step members interval symbols input).2 :=
      step_frame hstart hfail fun intent tradingDate heq => hturn ⟨intent, tradingDate, heq⟩
    rw [hframe.orders, due, inHand, asked, hframe.job, hframe.loop]
    exact List.Sublist.refl _

/-! ### A trader that has been stopped -/

omit [DecidableEq ι] [DecidableEq M] [DecidableEq D] in
lemma stepsLeft_of_some (hloop : s.loops[n]? = some loop) :
    s.stepsLeft n members = loop.stepsLeft members (s.desks.jobs (.inl n)) := by
  rw [stepsLeft, hloop]
  rfl

omit [DecidableEq ι] [DecidableEq M] [DecidableEq D] in
/-- A loop that can take no more steps has ended. -/
lemma ended_of_stepsLeft (h : s.stepsLeft n members = 0) (hloop : s.loops[n]? = some loop) :
    loop = .ended := by
  rw [stepsLeft_of_some hloop] at h
  cases loop <;> simp_all [Loop.stepsLeft]

omit [DecidableEq ι] [DecidableEq M] [DecidableEq D] in
lemma stepsLeft_goTo (hloop : s.loops[n]? = some loop)
    (hless : loop'.stepsLeft members (s.desks.jobs (.inl n))
      < loop.stepsLeft members (s.desks.jobs (.inl n))) :
    (s.goTo n loop').stepsLeft n members < s.stepsLeft n members := by
  rw [stepsLeft_of_some (goTo_self hloop), stepsLeft_of_some hloop]
  exact hless

lemma stepsLeft_turn (hrunning : s.running = false) (hloop : s.loops[n]? = some loop)
    (hended : loop ≠ .ended) :
    (s.turn members interval symbols n intent tradingDate loop).1.stepsLeft n members
      < s.stepsLeft n members := by
  cases loop with
  | checking =>
    refine stepsLeft_goTo hloop ?_
    rw [hrunning]
    exact Nat.one_pos
  | passing =>
    refine stepsLeft_goTo hloop ?_
    split <;> simp [Loop.stepsLeft]
  | visiting ms =>
    cases ms with
    | nil => exact stepsLeft_goTo hloop (by simp [Loop.stepsLeft])
    | cons m ms =>
      refine stepsLeft_goTo hloop ?_
      split <;> simp [Loop.stepsLeft]
  | asking m ms =>
    rw [turn, hrunning]
    exact stepsLeft_goTo hloop (by simp [Loop.stepsLeft])
  | trading m ms =>
    rw [turn]
    split
    · refine stepsLeft_goTo hloop ?_
      rw [Loop.stepsLeft, Loop.stepsLeft]
      omega
    · rename_i hjob
      have hless := Desks.stepsLeft_next symbols tradingDate hjob
      have hsame : (s.atDesk symbols (.next (.inl n) tradingDate)).1.loops[n]?
          = some (.trading m ms) := hloop
      rw [stepsLeft_of_some hsame, stepsLeft_of_some hloop]
      exact Nat.add_lt_add_right (Nat.add_lt_add_right hless _) _
  | waiting i =>
    cases i with
    | zero => exact stepsLeft_goTo hloop (by simp [Loop.stepsLeft])
    | succ i =>
      refine stepsLeft_goTo hloop ?_
      rw [hrunning]
      simp [Loop.stepsLeft]
  | ended => exact absurd rfl hended

omit [DecidableEq ι] [DecidableEq M] [DecidableEq D] in
lemma turns_cons (inputs : List (HouseInput ι M D)) :
    turns n (input :: inputs) = turns n [input] + turns n inputs := by
  rw [turns, turns, turns, ← List.countP_append, List.singleton_append]

omit [DecidableEq ι] [DecidableEq M] [DecidableEq D] in
lemma turns_of_ne (hturn : ¬∃ intent tradingDate, input = .turn n intent tradingDate) :
    turns n [input] = 0 := by
  rw [turns, List.countP_eq_zero]
  intro input' hinput
  rw [List.mem_singleton.mp hinput]
  cases input with
  | turn k intent tradingDate =>
    have hk : k ≠ n := fun heq => hturn ⟨intent, tradingDate, heq ▸ rfl⟩
    simpa using hk
  | start | stop | suspend | resume | login | logout | order | page | fail | other => simp

lemma stepsLeft_step (hrunning : s.running = false) (hstart : input ≠ .start) :
    (s.step members interval symbols input).1.stepsLeft n members
      ≤ s.stepsLeft n members - turns n [input] := by
  by_cases hturn : ∃ intent tradingDate, input = .turn n intent tradingDate
  · obtain ⟨intent, tradingDate, rfl⟩ := hturn
    have hone : turns n [(.turn n intent tradingDate : HouseInput ι M D)] = 1 := by
      simp [turns]
    rw [step, hone]
    split
    case h_1 loop hloop =>
      by_cases hended : loop = .ended
      · subst hended
        have hzero : s.stepsLeft n members = 0 := by
          rw [stepsLeft_of_some hloop]
          rfl
        rw [turn, hzero]
      · exact Nat.le_sub_one_of_lt (stepsLeft_turn hrunning hloop hended)
    case h_2 hloop =>
      rw [stepsLeft, hloop]
      exact Nat.zero_le _
  rw [turns_of_ne hturn, Nat.sub_zero]
  by_cases hfail : input = .fail (.inl n)
  · subst hfail
    have hidle : (s.desks.goOn (.inl n) .idle).jobs (.inl n) = .idle := Desks.goOn_self
    show (s.loops[n]?).elim 0 (Loop.stepsLeft members
      ((s.desks.goOn (.inl n) .idle).jobs (.inl n))) ≤ _
    rw [hidle, stepsLeft]
    cases s.loops[n]? with
    | none => exact le_rfl
    | some loop => cases loop <;> simp [Loop.stepsLeft, Job.stepsLeft]
  · have hframe : Frame n s (s.step members interval symbols input).1
        (s.step members interval symbols input).2 :=
      step_frame hstart hfail fun intent tradingDate heq => hturn ⟨intent, tradingDate, heq⟩
    rw [stepsLeft, stepsLeft, hframe.loop, hframe.job]

/-! ### Runs -/

lemma running_step (hrunning : s.running = false) (hstart : input ≠ .start) :
    (s.step members interval symbols input).1.running = false := by
  by_contra h
  rw [Bool.not_eq_false] at h
  rw [running_of_step hstart h] at hrunning
  cases hrunning

variable {inputs : List (HouseInput ι M D)}

/-- A loop of a trader that has been stopped ends. -/
lemma run_stepsLeft (hrunning : s.running = false) (hstart : .start ∉ inputs) :
    (Machine.run (step members interval symbols) s inputs).1.stepsLeft n members
      ≤ s.stepsLeft n members - turns n inputs := by
  induction inputs generalizing s with
  | nil => exact le_rfl
  | cons input inputs ih =>
    rw [List.mem_cons, not_or] at hstart
    have hstill : (s.step members interval symbols input).1.running = false :=
      running_step hrunning (Ne.symm hstart.1)
    have hless : (s.step members interval symbols input).1.stepsLeft n members
        ≤ s.stepsLeft n members - turns n [input] :=
      stepsLeft_step hrunning (Ne.symm hstart.1)
    rw [turns_cons]
    exact (ih hstill hstart.2).trans (by omega)

/-- It posts what it has in hand. -/
lemma run_stopped (hrunning : s.running = false) (hstart : .start ∉ inputs) :
    (ordersOf (.inl n) (Machine.run (step members interval symbols) s inputs).2).Sublist
      (s.inHand n) := by
  have hleft := Machine.filterMap_run_sublist (step members interval symbols)
    (f := DeskEvent.postedBy (.inl n)) (I := fun s => s.running = false) (g := fun s => s.left n)
    (fun s input hinput hs => running_step hs hinput)
    (fun s input hinput hs => left_step (Or.inl hs) hinput) (Machine.along_of_not_mem hstart)
    hrunning
  have hs : s.left n = s.inHand n := by
    rw [left, if_neg (by simp [hrunning]), List.append_nil]
  rw [hs] at hleft
  exact (List.sublist_append_left ..).trans hleft

/-- A loop of a trader that has been suspended ends its pass. -/
lemma run_suspended (hsuspended : s.suspended = true) (hstart : .start ∉ inputs)
    (hresume : .resume ∉ inputs) :
    (ordersOf (.inl n) (Machine.run (step members interval symbols) s inputs).2).Sublist
      (s.inHand n ++ s.toVisit n) := by
  have hleft := Machine.filterMap_run_sublist (step members interval symbols)
    (f := DeskEvent.postedBy (.inl n)) (I := Held) (g := fun s => s.left n)
    (fun s input hinput hs => hs.step hinput.1 fun heq => absurd heq hinput.2)
    (fun s input hinput hs => left_step hs hinput.1)
    ((Machine.along_of_not_mem hstart).and (Machine.along_of_not_mem hresume))
    (Or.inr hsuspended)
  refine (List.sublist_append_left ..).trans (hleft.trans (List.Sublist.append_left ?_ _))
  split
  · exact List.Sublist.refl _
  · exact List.nil_sublist _

/-- A loop posts for a member that is active what it may still post for it. -/
lemma run_due {m : M} (hm : m ∈ s.humanActive) (hlogout : .logout m ∉ inputs) :
    ((ordersOf (.inl n) (Machine.run (step members interval symbols) s inputs).2).filter
      (· = m)).Sublist (s.due n m) := by
  have hdue := Machine.filterMap_run_sublist (step members interval symbols)
    (f := fun e => (DeskEvent.postedBy (.inl n) e).filter (· = m))
    (I := fun s => m ∈ s.humanActive) (g := fun s => s.due n m)
    (fun s input hinput hs => mem_humanActive_step hs hinput)
    (fun s input _ hs => by
      rw [← List.filter_filterMap]
      exact due_step hs) (Machine.along_of_not_mem hlogout) hm
  rw [ordersOf, List.filter_filterMap]
  exact (List.sublist_append_left ..).trans hdue

/-! ### Desks of the loops -/

/-- A loop has an order under way only for the member for which it trades. -/
def Coherent (s : ClearingHouse ι M D) : Prop :=
  ∀ n, s.desks.jobs (.inl n) ≠ .idle → ∃ m ms, s.loops[n]? = some (.trading m ms) ∧
    (s.desks.jobs (.inl n)).memberId = some m

omit [DecidableEq ι] [DecidableEq M] [DecidableEq D] in
lemma Coherent.idle (h : s.Coherent) (hloop : s.loops[n]? = some loop)
    (hne : ∀ m ms, loop ≠ .trading m ms) : s.desks.jobs (.inl n) = .idle := by
  by_contra hjob
  obtain ⟨m, ms, hm, -⟩ := h n hjob
  exact hne m ms (Option.some.inj (hloop.symm.trans hm))

lemma turn_trading {m : M} {ms : List M} (hbusy : s.desks.jobs (.inl n) ≠ .idle) :
    s.turn members interval symbols n intent tradingDate (.trading m ms)
      = s.atDesk symbols (.next (.inl n) tradingDate) := by
  rw [ClearingHouse.turn]
  split
  · contradiction
  · rfl

lemma Coherent.turn (h : s.Coherent) (hloop : s.loops[n]? = some loop)
    (hjob : (s.turn members interval symbols n intent tradingDate loop).1.desks.jobs (.inl n)
      ≠ .idle) : ∃ m ms,
    (s.turn members interval symbols n intent tradingDate loop).1.loops[n]? = some (.trading m ms) ∧
      ((s.turn members interval symbols n intent tradingDate loop).1.desks.jobs (.inl n)).memberId
        = some m := by
  have hidle := h.idle hloop
  cases loop with
  | checking | passing | ended => exact absurd (hidle (by simp)) hjob
  | visiting ms => cases ms <;> exact absurd (hidle (by simp)) hjob
  | asking m ms =>
    rw [ClearingHouse.turn] at hjob ⊢
    by_cases hrunning : s.running = true
    · rw [if_pos hrunning]
      refine ⟨m, ms, goTo_self hloop, ?_⟩
      have hbegun : s.desks.step symbols (.begin (.inl n) m intent)
          = (s.desks.goOn (.inl n) (.begun m intent), []) := by
        rw [Desks.step, hidle (by simp)]
      show ((s.desks.step symbols _).1.jobs (.inl n)).memberId = _
      rw [hbegun, Desks.goOn_self]
      rfl
    · rw [if_neg hrunning] at hjob
      exact absurd (hidle (by simp)) hjob
  | trading m ms =>
    by_cases hbusy : s.desks.jobs (.inl n) = .idle
    · rw [ClearingHouse.turn, hbusy] at hjob
      exact absurd hbusy hjob
    · obtain ⟨m', ms', hm', hmember⟩ := h n hbusy
      rw [turn_trading hbusy] at hjob ⊢
      exact ⟨m', ms', hm', (Desks.memberId_next hjob).trans hmember⟩
  | waiting i => cases i <;> exact absurd (hidle (by simp)) hjob

lemma Coherent.step (h : s.Coherent) : (s.step members interval symbols input).1.Coherent := by
  intro n hjob
  by_cases hturn : ∃ intent tradingDate, input = .turn n intent tradingDate
  · obtain ⟨intent, tradingDate, rfl⟩ := hturn
    rw [ClearingHouse.step] at hjob ⊢
    split at hjob
    case h_1 loop hloop => exact h.turn hloop hjob
    case h_2 => exact h n hjob
  by_cases hfail : input = .fail (.inl n)
  · subst hfail
    exact absurd Desks.goOn_self hjob
  by_cases hstart : input = .start
  · subst hstart
    obtain ⟨m, ms, hloop, hm⟩ := h n hjob
    refine ⟨m, ms, ?_, hm⟩
    show (s.loops ++ [Loop.checking])[n]? = _
    rw [List.getElem?_append_left (List.getElem?_eq_some_iff.mp hloop).1]
    exact hloop
  · have hframe : Frame n s (s.step members interval symbols input).1
        (s.step members interval symbols input).2 :=
      step_frame hstart hfail fun intent tradingDate heq => hturn ⟨intent, tradingDate, heq⟩
    rw [hframe.loop, hframe.job] at *
    exact h n hjob

omit [DecidableEq ι] [DecidableEq M] [DecidableEq D] in
/-- What a loop has in hand and has asked for is one member at most. -/
lemma Coherent.length_le (h : s.Coherent) (n : ℕ) : (s.inHand n ++ s.asked n).length ≤ 1 := by
  have hpending : (s.inHand n).length ≤ 1 := by
    rw [inHand]
    cases s.desks.jobs (.inl n) <;> simp [Job.pending]
  cases hloop : s.loops[n]? with
  | none =>
    rw [asked, hloop]
    simpa using hpending
  | some loop =>
    rw [asked_of_some hloop]
    cases loop with
    | asking m ms =>
      rw [inHand, h.idle hloop (by simp)]
      exact le_rfl
    | checking | passing | visiting | trading | waiting | ended =>
      simpa [Loop.asked] using hpending

end

end ClearingHouse

/-- What loops do from here on, as long as what is switched off is not switched on again. -/
structure ClearingHouse.Obeys [DecidableEq ι] [DecidableEq M] (members : List M)
    (s : ClearingHouse ι M D) (inputs : List (HouseInput ι M D))
    (r : ClearingHouse ι M D × List (DeskEvent (ℕ ⊕ ι) M D)) (n : ℕ) : Prop where
  /-- a loop is with one member at a time -/
  one : (s.inHand n ++ s.asked n).length ≤ 1
  /-- it posts no order but that in hand when the trader has been stopped -/
  stopped : s.running = false → .start ∉ inputs →
    (ordersOf (.inl n) r.2).Sublist (s.inHand n)
  /-- and it ends -/
  ended : s.running = false → .start ∉ inputs →
    s.stepsLeft n members ≤ ClearingHouse.turns n inputs → ∀ loop ∈ r.1.loops[n]?, loop = .ended
  /-- it ends its pass when the trader has been suspended -/
  suspended : s.suspended = true → .start ∉ inputs → .resume ∉ inputs →
    (ordersOf (.inl n) r.2).Sublist (s.inHand n ++ s.toVisit n)
  /-- it posts no order for a member that is active but that in hand or asked for -/
  human : ∀ m ∈ s.humanActive, .logout m ∉ inputs →
    ((ordersOf (.inl n) r.2).filter (· = m)).Sublist ((s.inHand n ++ s.asked n).filter (· = m))

section

variable [DecidableEq ι] [DecidableEq M] [DecidableEq D]

/-- From any state that is reached, each loop does what the switches say, but for the one member
that it is with. -/
theorem run_obeys (members : List M) (interval : ℕ) (symbols : List (ℕ × List Char))
    (db : Database M (List Char) D ℚ) (before inputs : List (HouseInput ι M D)) (n : ℕ) :
    let step := ClearingHouse.step (ι := ι) members interval symbols
    let s := (Machine.run step { desks := { db } } before).1
    s.Obeys members inputs (Machine.run step s inputs) n := by
  intro step s
  have hcoherent : s.Coherent :=
    Machine.run_induction (h := []) (C := fun _ _ => True)
      (Q := fun (s : ClearingHouse ι M D) _ => s.Coherent)
      (fun _ _ _ _ hs => hs.step) (Machine.along_of_forall (A := fun _ => True) (by simp))
      fun _ hjob => absurd rfl hjob
  constructor
  case one => exact hcoherent.length_le n
  case stopped => exact ClearingHouse.run_stopped
  case ended =>
    intro hrunning hstart hturns loop hloop
    have hleft : (Machine.run step s inputs).1.stepsLeft n members
        ≤ s.stepsLeft n members - ClearingHouse.turns n inputs :=
      ClearingHouse.run_stepsLeft hrunning hstart
    rw [Nat.sub_eq_zero_of_le hturns] at hleft
    exact ClearingHouse.ended_of_stepsLeft (Nat.le_zero.mp hleft) hloop
  case suspended => exact ClearingHouse.run_suspended
  case human => exact fun m => ClearingHouse.run_due

end

end EuNEx.Clearing
