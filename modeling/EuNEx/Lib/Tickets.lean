import EuNEx.Lib.Machine
import Mathlib.Data.List.Nodup
import Mathlib.Data.List.Range
import Mathlib.Algebra.Group.End
import Mathlib.Logic.Equiv.Basic
import Mathlib.Logic.Function.Basic

/-!
# Tickets from a counter without a lock

A thread that needs a ticket reads a counter. Then it reads the counter again to add one, and stores
the sum; other threads may come in between. Their tickets are all different exactly if no thread
reads its ticket between the first read of another thread and its store.
-/

namespace Tickets

/-- How far a thread has come, and what it needs the ticket for. -/
inductive Taking (α : Type*) where
  | idle
  /-- it has read its ticket -/
  | taken (purpose : α) (ticket : ℕ)
  /-- it has read the counter again -/
  | adding (purpose : α) (ticket value : ℕ)
  /-- it has stored the sum -/
  | holding (purpose : α) (ticket : ℕ)
deriving DecidableEq, Repr

/-- What a thread does: it starts to take a ticket if it is idle, or it goes on if it is not. -/
inductive Move (α : Type*) where
  | start (purpose : α)
  | next

inductive Event (α : Type*) where
  | taken (ticket : ℕ)
  | used (ticket : ℕ) (purpose : α)
deriving DecidableEq, Repr

structure Counter (ι α : Type*) where
  next : ℕ
  threads : ι → Taking α := fun _ => .idle

variable {ι α : Type*}

namespace Taking

/-- Between the first read and the store. -/
def Busy : Taking α → Prop
  | .taken _ _ => True
  | .adding _ _ _ => True
  | _ => False

/-- The ticket of a thread that has not used it. -/
def ticket? : Taking α → Option ℕ
  | .idle => none
  | .taken _ ticket => some ticket
  | .adding _ ticket _ => some ticket
  | .holding _ ticket => some ticket

@[simp] lemma not_busy_idle : ¬(idle : Taking α).Busy := id

@[simp] lemma not_busy_holding (purpose : α) (ticket : ℕ) : ¬(holding purpose ticket).Busy := id

@[simp] lemma busy_taken (purpose : α) (ticket : ℕ) : (taken purpose ticket).Busy := trivial

@[simp] lemma busy_adding (purpose : α) (ticket value : ℕ) :
    (adding purpose ticket value).Busy := trivial

end Taking

/-- The tickets that have been read. -/
def takenTickets (h : List (Event α)) : List ℕ :=
  h.filterMap fun
    | .taken ticket => some ticket
    | .used _ _ => none

/-- The tickets that have been used. -/
def usedTickets (h : List (Event α)) : List ℕ :=
  h.filterMap fun
    | .taken _ => none
    | .used ticket _ => some ticket

section

variable {h k : List (Event α)} {ticket : ℕ} {purpose : α}

@[simp] lemma takenTickets_nil : takenTickets ([] : List (Event α)) = [] := rfl

@[simp] lemma usedTickets_nil : usedTickets ([] : List (Event α)) = [] := rfl

@[simp] lemma takenTickets_append : takenTickets (h ++ k) = takenTickets h ++ takenTickets k :=
  List.filterMap_append ..

@[simp] lemma usedTickets_append : usedTickets (h ++ k) = usedTickets h ++ usedTickets k :=
  List.filterMap_append ..

@[simp] lemma takenTickets_taken : takenTickets [(.taken ticket : Event α)] = [ticket] := rfl

@[simp] lemma takenTickets_used : takenTickets [(.used ticket purpose : Event α)] = [] := rfl

@[simp] lemma usedTickets_taken : usedTickets [(.taken ticket : Event α)] = [] := rfl

@[simp] lemma usedTickets_used : usedTickets [(.used ticket purpose : Event α)] = [ticket] := rfl

end

section

variable [DecidableEq ι]

namespace Counter

/-- The thread gets there. -/
def set (c : Counter ι α) (i : ι) (taking : Taking α) : Counter ι α :=
  { c with threads := Function.update c.threads i taking }

def step (c : Counter ι α) : ι × Move α → Counter ι α × List (Event α)
  | (i, .start purpose) =>
    match c.threads i with
    | .idle => (c.set i (.taken purpose c.next), [.taken c.next])
    | _ => (c, [])
  | (i, .next) =>
    match c.threads i with
    | .idle => (c, [])
    | .taken purpose ticket => (c.set i (.adding purpose ticket c.next), [])
    | .adding purpose ticket value =>
      ({ c.set i (.holding purpose ticket) with next := value + 1 }, [])
    | .holding purpose ticket => (c.set i .idle, [.used ticket purpose])

/-- No thread is between its first read and its store when another one reads its ticket. -/
def Alone (c : Counter ι α) : ι × Move α → Prop
  | (i, .start _) => c.threads i = .idle → ∀ j, ¬(c.threads j).Busy
  | (_, .next) => True

section

variable {c : Counter ι α} {i j : ι} {taking : Taking α} {purpose : α} {ticket value : ℕ}

@[simp] lemma next_set : (c.set i taking).next = c.next := rfl

@[simp] lemma threads_set_self : (c.set i taking).threads i = taking := Function.update_self ..

@[simp] lemma threads_set_of_ne (hne : j ≠ i) : (c.set i taking).threads j = c.threads j :=
  Function.update_of_ne hne ..

lemma step_start_idle (hi : c.threads i = .idle) : c.step (i, .start purpose)
    = (c.set i (.taken purpose c.next), [.taken c.next]) := by simp [step, hi]

lemma step_start (hi : c.threads i ≠ .idle) : c.step (i, .start purpose) = (c, []) := by
  cases hthread : c.threads i <;> simp_all [step]

lemma step_next_idle (hi : c.threads i = .idle) : c.step (i, .next) = (c, []) := by
  simp [step, hi]

lemma step_next_taken (hi : c.threads i = .taken purpose ticket) :
    c.step (i, .next) = (c.set i (.adding purpose ticket c.next), []) := by simp [step, hi]

lemma step_next_adding (hi : c.threads i = .adding purpose ticket value) :
    c.step (i, .next) = ({ c.set i (.holding purpose ticket) with next := value + 1 }, []) := by
  simp [step, hi]

lemma step_next_holding (hi : c.threads i = .holding purpose ticket) :
    c.step (i, .next) = (c.set i .idle, [.used ticket purpose]) := by simp [step, hi]

end

/-! ### One thread at a time -/

/-- The tickets are consecutive numbers, and at most one thread is between its first read and its
store. -/
inductive Orderly (first : ℕ) (c : Counter ι α) (h : List (Event α)) : Prop where
  | free (n : ℕ) (hnone : ∀ j, ¬(c.threads j).Busy) (hnext : c.next = first + n)
      (htaken : takenTickets h = List.range' first n)
  | busy (n : ℕ) (i : ι) (hothers : ∀ j ≠ i, ¬(c.threads j).Busy)
      (hself : ∃ purpose, c.threads i = .taken purpose c.next ∨
        c.threads i = .adding purpose c.next c.next)
      (hnext : c.next = first + n) (htaken : takenTickets h = List.range' first (n + 1))

section

variable {first : ℕ} {c : Counter ι α} {h : List (Event α)} {input : ι × Move α}

omit [DecidableEq ι] in
lemma Orderly.exists_range (hc : c.Orderly first h) :
    ∃ n, takenTickets h = List.range' first n := by
  cases hc with
  | free n hnone hnext htaken => exact ⟨n, htaken⟩
  | busy n i hothers hself hnext htaken => exact ⟨n + 1, htaken⟩

/-- A thread uses its ticket. -/
lemma Orderly.use (hc : c.Orderly first h) {i : ι} {purpose : α} {ticket : ℕ}
    (hi : c.threads i = .holding purpose ticket) :
    (c.set i .idle).Orderly first (h ++ [.used ticket purpose]) := by
  have hset : ∀ j, ((c.set i .idle).threads j).Busy → (c.threads j).Busy := by
    intro j hj
    rcases eq_or_ne j i with rfl | hne
    · rw [threads_set_self] at hj
      exact absurd hj Taking.not_busy_idle
    · rwa [threads_set_of_ne hne] at hj
  cases hc with
  | free n hnone hnext htaken =>
    exact .free n (fun j hj => hnone j (hset j hj)) hnext (by simp [htaken])
  | busy n k hothers hself hnext htaken =>
    have hne : k ≠ i := by
      rintro rfl
      obtain ⟨purpose', hk | hk⟩ := hself <;> simp [hi] at hk
    refine .busy n k (fun j hj hbusy => hothers j hj (hset j hbusy)) ?_ hnext (by simp [htaken])
    rw [threads_set_of_ne hne]
    exact hself

lemma Orderly.step (hc : c.Orderly first h) (halone : c.Alone input) :
    (c.step input).1.Orderly first (h ++ (c.step input).2) := by
  obtain ⟨i, purpose | -⟩ := input
  · by_cases hi : c.threads i = .idle
    · -- the first read
      rw [step_start_idle hi]
      cases hc with
      | free n hnone hnext htaken =>
        refine .busy n i (fun j hj => ?_) ⟨purpose, .inl ?_⟩ hnext ?_
        · rw [threads_set_of_ne hj]
          exact hnone j
        · exact threads_set_self
        · rw [takenTickets_append, htaken, List.range'_concat]
          simp [hnext]
      | busy n k hothers hself hnext htaken =>
        obtain ⟨purpose', hk | hk⟩ := hself
        · exact absurd (hk ▸ Taking.busy_taken ..) (halone hi k)
        · exact absurd (hk ▸ Taking.busy_adding ..) (halone hi k)
    · rw [step_start hi, List.append_nil]
      exact hc
  · cases hi : c.threads i with
    | idle =>
      rw [step_next_idle hi, List.append_nil]
      exact hc
    | taken purpose ticket =>
      rw [step_next_taken hi, List.append_nil]
      cases hc with
      | free n hnone hnext htaken => exact absurd (hi ▸ Taking.busy_taken ..) (hnone i)
      | busy n k hothers hself hnext htaken =>
        have hik : i = k := by
          by_contra hne
          exact hothers i hne (hi ▸ Taking.busy_taken ..)
        subst hik
        obtain ⟨purpose', hk | hk⟩ := hself
        · rw [hi] at hk
          cases hk
          refine .busy n i (fun j hj => ?_) ⟨purpose, .inr threads_set_self⟩ hnext htaken
          rw [threads_set_of_ne hj]
          exact hothers j hj
        · rw [hi] at hk
          cases hk
    | adding purpose ticket value =>
      rw [step_next_adding hi, List.append_nil]
      cases hc with
      | free n hnone hnext htaken => exact absurd (hi ▸ Taking.busy_adding ..) (hnone i)
      | busy n k hothers hself hnext htaken =>
        have hik : i = k := by
          by_contra hne
          exact hothers i hne (hi ▸ Taking.busy_adding ..)
        subst hik
        obtain ⟨purpose', hk | hk⟩ := hself
        · rw [hi] at hk
          cases hk
        · rw [hi] at hk
          cases hk
          -- the store: what was read is still the value of the counter
          refine .free (n + 1) (fun j => ?_) (congrArg Nat.succ hnext) htaken
          show ¬((c.set i _).threads j).Busy
          rcases eq_or_ne j i with rfl | hne
          · rw [threads_set_self]
            exact Taking.not_busy_holding purpose _
          · rw [threads_set_of_ne hne]
            exact hothers j hne
    | holding purpose ticket =>
      rw [step_next_holding hi]
      exact hc.use hi

/-- A thread that is not alone takes a ticket that another one has. -/
lemma Orderly.not_nodup (hc : c.Orderly first h) (halone : ¬c.Alone input) :
    ¬(takenTickets (h ++ (c.step input).2)).Nodup := by
  obtain ⟨i, purpose | -⟩ := input
  · obtain ⟨hi, hbusy⟩ := Classical.not_imp.mp halone
    obtain ⟨j, hj⟩ := not_forall_not.mp hbusy
    rw [step_start_idle hi, takenTickets_append]
    cases hc with
    | free n hnone hnext htaken => exact absurd hj (hnone j)
    | busy n k hothers hself hnext htaken =>
      rw [htaken, takenTickets_taken, hnext]
      intro hnodup
      have hapart := (List.nodup_append.mp hnodup).2.2 (first + n) (by simp)
      exact hapart (first + n) (List.mem_singleton_self _) rfl
  · exact absurd trivial halone

/-! ### No ticket is used twice -/

/-- The tickets in hand have been taken once and not been used. -/
structure Once (c : Counter ι α) (h : List (Event α)) : Prop where
  nodup : (usedTickets h).Nodup
  taken : ∀ ticket ∈ usedTickets h, ticket ∈ takenTickets h
  inHand : ∀ i ticket, (c.threads i).ticket? = some ticket →
    ticket ∈ takenTickets h ∧ ticket ∉ usedTickets h
  eq : ∀ i j ticket, (c.threads i).ticket? = some ticket → (c.threads j).ticket? = some ticket →
    i = j

/-- A thread goes on with the ticket that it has. -/
lemma Once.set (hc : c.Once h) {i : ι} {taking : Taking α}
    (hi : taking.ticket? = (c.threads i).ticket?) : (c.set i taking).Once h := by
  have hset : ∀ j, ((c.set i taking).threads j).ticket? = (c.threads j).ticket? := by
    intro j
    rcases eq_or_ne j i with rfl | hne
    · rw [threads_set_self, hi]
    · rw [threads_set_of_ne hne]
  refine ⟨hc.nodup, hc.taken, fun j ticket hj => ?_, fun j k ticket hj hk => ?_⟩
  · exact hc.inHand j ticket (hset j ▸ hj)
  · exact hc.eq j k ticket (hset j ▸ hj) (hset k ▸ hk)

/-- A thread takes a ticket that nobody else has had. -/
lemma Once.take (hc : c.Once h) {i : ι} {purpose : α} (hnew : c.next ∉ takenTickets h) :
    (c.set i (.taken purpose c.next)).Once (h ++ [.taken c.next]) := by
  have hown : ∀ j ticket, ((c.set i (.taken purpose c.next)).threads j).ticket? = some ticket →
      (j = i ∧ ticket = c.next) ∨ j ≠ i ∧ (c.threads j).ticket? = some ticket := by
    intro j ticket hj
    rcases eq_or_ne j i with rfl | hne
    · rw [threads_set_self] at hj
      exact .inl ⟨rfl, (Option.some.inj hj).symm⟩
    · rw [threads_set_of_ne hne] at hj
      exact .inr ⟨hne, hj⟩
  constructor
  case nodup => simpa using hc.nodup
  case taken =>
    intro ticket hticket
    simp only [usedTickets_append, usedTickets_taken, List.append_nil] at hticket
    exact takenTickets_append ▸ List.mem_append_left _ (hc.taken ticket hticket)
  case inHand =>
    intro j ticket hj
    simp only [takenTickets_append, takenTickets_taken, usedTickets_append, usedTickets_taken,
      List.append_nil, List.mem_append, List.mem_singleton]
    rcases hown j ticket hj with ⟨-, rfl⟩ | ⟨-, hj⟩
    · exact ⟨.inr rfl, fun hused => hnew (hc.taken _ hused)⟩
    · exact ⟨.inl (hc.inHand j ticket hj).1, (hc.inHand j ticket hj).2⟩
  case eq =>
    intro j k ticket hj hk
    rcases hown j ticket hj with ⟨rfl, rfl⟩ | ⟨-, hj⟩ <;>
      rcases hown k _ hk with ⟨hki, hkt⟩ | ⟨-, hk⟩
    · exact hki.symm
    · exact absurd (hc.inHand k _ hk).1 hnew
    · exact absurd (hkt ▸ (hc.inHand j _ hj).1) hnew
    · exact hc.eq j k ticket hj hk

/-- A thread uses its ticket. -/
lemma Once.use (hc : c.Once h) {i : ι} {purpose : α} {ticket : ℕ}
    (hi : c.threads i = .holding purpose ticket) :
    (c.set i .idle).Once (h ++ [.used ticket purpose]) := by
  have hmine : (c.threads i).ticket? = some ticket := by rw [hi]; rfl
  obtain ⟨htaken, hunused⟩ := hc.inHand i ticket hmine
  have hothers : ∀ j ticket', ((c.set i .idle).threads j).ticket? = some ticket' →
      j ≠ i ∧ (c.threads j).ticket? = some ticket' := by
    intro j ticket' hj
    rcases eq_or_ne j i with rfl | hne
    · rw [threads_set_self] at hj
      cases hj
    · exact ⟨hne, threads_set_of_ne hne ▸ hj⟩
  constructor
  case nodup =>
    rw [usedTickets_append, usedTickets_used]
    exact hc.nodup.append (List.nodup_singleton _) (by simpa using hunused)
  case taken =>
    intro ticket' hticket'
    simp only [usedTickets_append, usedTickets_used, List.mem_append, List.mem_singleton]
      at hticket'
    rcases hticket' with hticket' | rfl
    · exact takenTickets_append ▸ List.mem_append_left _ (hc.taken ticket' hticket')
    · exact takenTickets_append ▸ List.mem_append_left _ htaken
  case inHand =>
    intro j ticket' hj
    obtain ⟨hne, hj⟩ := hothers j ticket' hj
    obtain ⟨htaken', hunused'⟩ := hc.inHand j ticket' hj
    simp only [takenTickets_append, takenTickets_used, List.append_nil, usedTickets_append,
      usedTickets_used, List.mem_append, List.mem_singleton]
    refine ⟨htaken', ?_⟩
    rintro (hused | rfl)
    · exact hunused' hused
    · exact hne (hc.eq j i ticket' hj hmine)
  case eq =>
    intro j k ticket' hj hk
    exact hc.eq j k ticket' (hothers j ticket' hj).2 (hothers k ticket' hk).2

lemma Once.step (hc : c.Once h) (hnodup : (takenTickets (h ++ (c.step input).2)).Nodup) :
    (c.step input).1.Once (h ++ (c.step input).2) := by
  obtain ⟨i, purpose | -⟩ := input
  · by_cases hi : c.threads i = .idle
    · rw [step_start_idle hi] at hnodup ⊢
      rw [takenTickets_append, takenTickets_taken, ← List.concat_eq_append,
        List.nodup_concat] at hnodup
      exact hc.take hnodup.1
    · rw [step_start hi, List.append_nil]
      exact hc
  · cases hi : c.threads i with
    | idle =>
      rw [step_next_idle hi, List.append_nil]
      exact hc
    | taken purpose ticket =>
      rw [step_next_taken hi, List.append_nil]
      exact hc.set (by rw [hi]; rfl)
    | adding purpose ticket value =>
      have hset : (c.set i (.holding purpose ticket)).Once h := hc.set (by rw [hi]; rfl)
      rw [step_next_adding hi, List.append_nil]
      exact ⟨hset.nodup, hset.taken, hset.inHand, hset.eq⟩
    | holding purpose ticket =>
      rw [step_next_holding hi]
      exact hc.use hi

end

/-! ### Runs -/

open Machine

variable {first : ℕ} {moves : List (ι × Move α)}

omit [DecidableEq ι] in
lemma orderly_new (first : ℕ) : ({ next := first } : Counter ι α).Orderly first [] :=
  .free 0 (fun _ => Taking.not_busy_idle) rfl rfl

/-- One thread at a time takes consecutive numbers. -/
theorem orderly_run (halone : Along Counter.step Alone { next := first } moves) :
    (run Counter.step { next := first } moves).1.Orderly first
      (run Counter.step { next := first } moves).2 :=
  run_induction (h := []) (fun _ _ _ halone hc => hc.step halone) halone (orderly_new first)

/-- All tickets are different exactly if the threads take them one at a time. -/
theorem run_nodup_iff : (takenTickets (run Counter.step { next := first } moves).2).Nodup ↔
    Along Counter.step Alone { next := first } moves := by
  have hmore : ∀ (c : Counter ι α) h, c.Orderly first h →
      ((takenTickets (h ++ (run Counter.step c moves).2)).Nodup ↔
        Along Counter.step Alone c moves) := by
    induction moves with
    | nil =>
      intro c h hc
      obtain ⟨n, htaken⟩ := hc.exists_range
      simp [htaken, List.nodup_range']
    | cons move moves ih =>
      intro c h hc
      rw [run_cons, along_cons, ← List.append_assoc]
      by_cases halone : c.Alone move
      · rw [ih _ _ (hc.step halone)]
        exact (and_iff_right halone).symm
      · refine iff_of_false (fun hnodup => hc.not_nodup halone ?_) fun hand => halone hand.1
        rw [takenTickets_append] at hnodup
        exact hnodup.of_append_left
  exact hmore _ [] (orderly_new first)

/-- If all tickets are different, none is used twice. -/
theorem run_used_nodup (hnodup : (takenTickets (run Counter.step
      ({ next := first } : Counter ι α) moves).2).Nodup) :
    (usedTickets (run Counter.step ({ next := first } : Counter ι α) moves).2).Nodup := by
  have honce : Once ({ next := first } : Counter ι α) [] :=
    ⟨List.nodup_nil, by simp, fun _ _ hi => (nomatch hi), fun _ _ _ hi => (nomatch hi)⟩
  have hrun : (takenTickets (run Counter.step ({ next := first } : Counter ι α) moves).2).Nodup →
      (run Counter.step ({ next := first } : Counter ι α) moves).1.Once
        (run Counter.step ({ next := first } : Counter ι α) moves).2 := by
    refine run_induction (h := []) (C := fun _ _ => True)
      (Q := fun (c : Counter ι α) h => (takenTickets h).Nodup → c.Once h) ?_
      (along_of_forall (A := fun _ => True) (by simp)) fun _ => honce
    intro c h move _ hc hnodup
    refine Once.step (hc ?_) hnodup
    rw [takenTickets_append] at hnodup
    exact hnodup.of_append_left
  exact (hrun hnodup).nodup

end Counter

end

/-! ### Numbers in another order -/

/-- The tickets are consecutive numbers, renamed in their order. -/
def IsRange (ρ : Equiv.Perm ℕ) (first : ℕ) (tickets : List ℕ) : Prop :=
  tickets = (List.range' first tickets.length).map ρ

section

variable {ρ : Equiv.Perm ℕ} {first ticket : ℕ} {tickets more : List ℕ}

lemma IsRange.of_append (h : IsRange ρ first (tickets ++ more)) : IsRange ρ first tickets := by
  rw [IsRange, List.length_append, ← List.range'_append_1, List.map_append] at h
  exact List.append_inj_left h (by simp)

lemma IsRange.last (h : IsRange ρ first (tickets ++ [ticket])) :
    ρ (first + tickets.length) = ticket := by
  rw [IsRange, List.length_append, List.length_singleton, List.range'_1_concat, List.map_append,
    List.map_singleton] at h
  exact (List.singleton_inj.mp (List.append_inj_right' h rfl)).symm

/-- Different numbers are consecutive ones, renamed. -/
theorem exists_isRange (first : ℕ) (hnodup : tickets.Nodup) :
    ∃ ρ : Equiv.Perm ℕ, IsRange ρ first tickets := by
  induction tickets using List.reverseRecOn with
  | nil => exact ⟨1, rfl⟩
  | append_singleton tickets ticket ih =>
    rw [← List.concat_eq_append, List.nodup_concat] at hnodup
    obtain ⟨ρ, hρ⟩ := ih hnodup.2
    set next := first + tickets.length with hnext
    -- the next number becomes the new ticket, and none of the others changes
    refine ⟨Equiv.swap (ρ next) ticket * ρ, ?_⟩
    rw [IsRange, List.length_append, List.length_singleton, List.range'_1_concat, List.map_append,
      ← hnext, List.map_singleton, Equiv.Perm.mul_apply, Equiv.swap_apply_left]
    congr 1
    refine hρ.trans (List.map_congr_left fun n hn => ?_)
    have hlt : n < next := (List.mem_range'_1.mp hn).2
    have hmem : ρ n ∈ tickets := Eq.mpr (congrArg (ρ n ∈ ·) hρ) (List.mem_map_of_mem hn)
    rw [Equiv.Perm.mul_apply, Equiv.swap_apply_of_ne_of_ne]
    · exact fun heq => hlt.ne (ρ.injective heq)
    · exact fun heq => hnodup.1 (heq ▸ hmem)

end

end Tickets
