import EuNEx.Engine.SimplxShim
import EuNEx.Lib.Handover
import Mathlib.Data.List.Nodup

/-!
# What becomes of the events of an engine

While its threads run, an engine handles the events of a pipe in push order. But the threads end
with events left in the mailboxes, and the mode is switched back all the same: from then on a push
is delivered at once, ahead of those, and unless `drain` is called the destructor drops them. The
events of an engine are all handled, once and in push order, exactly as long as nothing of this
kind happens.
-/

namespace EuNEx.Simplx

open Handover (Line)

variable {π κ τ : Type*} [DecidableEq π]

/-- The pushes through a pipe. -/
def pushedOf (p : π) (h : List (LifeEvent π)) : List ℕ :=
  h.filterMap fun
    | .pushed q number => if q = p then some number else none
    | _ => none

/-- The pushes through a pipe whose events have been handled, in the order of the handling. -/
def handledOf (p : π) (h : List (LifeEvent π)) : List ℕ :=
  h.filterMap fun
    | .handled q number => if q = p then some number else none
    | _ => none

/-- No event is lost or reordered: the events of a pipe are handled in push order, none is deleted
unhandled, and before the engine is destroyed each has been handled exactly once. -/
structure Faithful (h : List (LifeEvent π)) : Prop where
  order : ∀ p, handledOf p h <+: pushedOf p h
  kept : ∀ p number, .deleted p number ∉ h
  once : Machine.Always (fun before event => event = .destroyed →
    ∀ p number, .pushed p number ∈ before → before.count (.handled p number) = 1) h

/-- The events of a pipe among these. -/
def numbers (p : π) (tasks : List (Task π τ)) : List ℕ :=
  (tasks.filter fun t => t.pipe = p).map Task.number

section

variable {p q : π} {h k : List (LifeEvent π)} {n : ℕ} {t : Task π τ}
  {tasks tasks' : List (Task π τ)}

@[simp] lemma pushedOf_append : pushedOf p (h ++ k) = pushedOf p h ++ pushedOf p k :=
  List.filterMap_append

@[simp] lemma handledOf_append : handledOf p (h ++ k) = handledOf p h ++ handledOf p k :=
  List.filterMap_append

lemma mem_pushedOf : n ∈ pushedOf p h ↔ .pushed p n ∈ h := by
  simp only [pushedOf, List.mem_filterMap]
  constructor
  · rintro ⟨event, hmem, heq⟩
    cases event with
    | pushed q m =>
      obtain ⟨rfl, rfl⟩ : q = p ∧ m = n := by simpa using heq
      exact hmem
    | _ => cases heq
  · intro hmem
    exact ⟨_, hmem, by simp⟩

lemma count_handledOf : h.count (.handled p n) = (handledOf p h).count n := by
  induction h with
  | nil => rfl
  | cons event h ih =>
    rw [← List.singleton_append, List.count_append, handledOf_append, List.count_append, ih]
    congr 1
    cases event with
    | handled q m =>
      by_cases hq : q = p
      · by_cases hm : m = n <;> simp [handledOf, hq, hm]
      · simp [handledOf, hq]
    | _ => simp [handledOf]

@[simp] lemma handledOf_handled :
    handledOf p [.handled q n] = if q = p then [n] else [] := by
  by_cases hq : q = p <;> simp [handledOf, hq]

@[simp] lemma pushedOf_pushed : pushedOf p [.pushed q n] = if q = p then [n] else [] := by
  by_cases hq : q = p <;> simp [pushedOf, hq]

@[simp] lemma pushedOf_handled : pushedOf p [.handled q n] = [] := rfl

@[simp] lemma handledOf_pushed : handledOf p [.pushed q n] = [] := rfl

@[simp] lemma numbers_nil : numbers p ([] : List (Task π τ)) = [] := rfl

@[simp] lemma numbers_append :
    numbers p (tasks ++ tasks') = numbers p tasks ++ numbers p tasks' := by simp [numbers]

lemma numbers_cons_self : numbers t.pipe (t :: tasks) = t.number :: numbers t.pipe tasks := by
  simp [numbers]

lemma numbers_eq_nil (h : ∀ t ∈ tasks, t.pipe ≠ p) : numbers p tasks = [] := by
  rw [numbers, List.filter_eq_nil_iff.mpr fun t ht => by simpa using h t ht, List.map_nil]

lemma numbers_cons_of_ne (hne : t.pipe ≠ p) : numbers p (t :: tasks) = numbers p tasks := by
  simp [numbers, hne]

@[simp] lemma Faithful.empty : Faithful ([] : List (LifeEvent π)) where
  order p := List.prefix_rfl
  kept p number hmem := by cases hmem
  once := Machine.always_nil

/-- What is handled in push order is the beginning of what is pushed. -/
lemma handledOf_eq (horder : handledOf p h <+: pushedOf p h)
    (hpushed : pushedOf p h = List.range n) :
    handledOf p h = List.range (handledOf p h).length := by
  rw [hpushed] at horder
  have htake := List.prefix_iff_eq_take.mp horder
  rw [List.take_range] at htake
  have hle := horder.length_le
  rw [List.length_range] at hle
  rwa [min_eq_left hle] at htake

/-- One more event is handled in push order exactly if it is the next one. -/
lemma snoc_prefix_iff {m : ℕ} (horder : handledOf p h <+: pushedOf p h)
    (hpushed : pushedOf p h = List.range n) (hm : m < n) :
    handledOf p h ++ [m] <+: pushedOf p h ↔ m = (handledOf p h).length := by
  have hhandled := handledOf_eq horder hpushed
  set d := (handledOf p h).length with hd
  rw [hhandled, hpushed]
  constructor
  · intro hprefix
    have htake := List.prefix_iff_eq_take.mp hprefix
    have hle := hprefix.length_le
    simp only [List.length_append, List.length_range, List.length_singleton] at hle
    rw [List.take_range, List.length_append, List.length_range, List.length_singleton,
      min_eq_left hle, List.range_succ] at htake
    simpa using List.append_cancel_left htake
  · rintro rfl
    rw [← List.range_succ]
    refine List.prefix_iff_eq_take.mpr ?_
    rw [List.length_range, List.take_range, min_eq_left hm]

end

/-! ### The condition -/

namespace Engine

variable (cores : List κ) (pipe : π → Pipe κ τ) (e : Engine π κ τ)

/-- The push in progress through a pipe. -/
def inProgress (p : π) : List ℕ := (e.pushing p).toList.map fun x => x.1.number

/-- A delivery at once leaves no earlier event of the pipe behind, neither the thread of a core nor
`drain` runs an event while the other holds an earlier one of the pipe, nothing is on its way when
the engine is destroyed, and each event has a handler. -/
def Safe (action : Action π κ τ) : Prop :=
  match action with
  | .endPush p => ∀ t, e.pushing p = some (t, false) → (pipe p).handles t.type = true ∧
      numbers p (e.batch (pipe p).dest) = [] ∧ numbers p e.drained = [] ∧
      numbers p (e.mailboxes (pipe p).dest) = []
  | .core c => ∀ t tasks, e.threads c = some (.batch (t :: tasks)) →
      (pipe t.pipe).handles t.type = true ∧ ∀ n ∈ numbers t.pipe e.drained, t.number < n
  | .drainStep => ∀ cs t tasks, e.drain = some (cs, t :: tasks) →
      (pipe t.pipe).handles t.type = true ∧
        ∀ n ∈ numbers t.pipe (e.batch (pipe t.pipe).dest), t.number < n
  | .destroy => e.main = .idle → e.drain = none →
      (∀ c, e.mailboxes c = []) ∧ ∀ p, e.pushing p = none
  | _ => True

/-! ### The invariant -/

/-- The events of each pipe that have not been handled are with the thread of the core of its
destination, with `drain`, in the mailbox of that core, or being pushed. -/
structure Tracked (e : Engine π κ τ) (h : List (LifeEvent π)) : Prop where
  pushed : ∀ p, pushedOf p h = List.range (e.pushes p)
  line : ∀ p, Line (handledOf p h).length (e.pushes p) (numbers p (e.batch (pipe p).dest))
    (numbers p e.drained) (numbers p (e.mailboxes (pipe p).dest) ++ e.inProgress p)
  mailbox : ∀ c, ∀ t ∈ e.mailboxes c, (pipe t.pipe).dest = c
  batch : ∀ c, ∀ t ∈ e.batch c, (pipe t.pipe).dest = c
  pushing : ∀ p t queued, e.pushing p = some (t, queued) → t.pipe = p
  outside : ∀ c ∉ cores, e.threads c = none
  idle : e.main = .idle → ∀ c, e.threads c = none

section

variable {cores pipe e} {e' : Engine π κ τ} {h : List (LifeEvent π)} {t : Task π τ}

lemma Tracked.empty : Tracked cores pipe ({} : Engine π κ τ) [] where
  pushed p := rfl
  line p := .empty 0
  mailbox c t ht := by cases ht
  batch c t ht := by cases ht
  pushing p t queued hp := by cases hp
  outside c hc := rfl
  idle h c := rfl

/-- A step that moves no event. -/
lemma Tracked.quiet (ht : Tracked cores pipe e h) (hpushes : e'.pushes = e.pushes)
    (hpushing : e'.pushing = e.pushing) (hmailboxes : e'.mailboxes = e.mailboxes)
    (hbatch : ∀ c, e'.batch c = e.batch c) (hdrained : e'.drained = e.drained)
    (houtside : ∀ c ∉ cores, e'.threads c = none)
    (hidle : e'.main = .idle → ∀ c, e'.threads c = none) : Tracked cores pipe e' h where
  pushed := hpushes ▸ ht.pushed
  line p := by
    rw [hpushes, hbatch, hdrained, hmailboxes, inProgress, hpushing]
    exact ht.line p
  mailbox := hmailboxes ▸ ht.mailbox
  batch c := hbatch c ▸ ht.batch c
  pushing := hpushing ▸ ht.pushing
  outside := houtside
  idle := hidle

omit [DecidableEq π] in
lemma deliver_of_handles (hhandles : (pipe t.pipe).handles t.type = true) :
    deliver pipe t = [.handled t.pipe t.number] := if_pos hhandles

/-- A delivery keeps the events in order exactly if the event has a handler and is the next one. -/
lemma faithful_deliver_iff (hf : Faithful h) (ht : Tracked cores pipe e h)
    (hn : t.number < e.pushes t.pipe) : Faithful (h ++ deliver pipe t) ↔
      (pipe t.pipe).handles t.type = true ∧ t.number = (handledOf t.pipe h).length := by
  have hiff := snoc_prefix_iff (hf.order t.pipe) (ht.pushed t.pipe) hn
  constructor
  · intro hf'
    by_cases hhandles : (pipe t.pipe).handles t.type = true
    · have horder := hf'.order t.pipe
      rw [deliver_of_handles hhandles, handledOf_append, pushedOf_append, handledOf_handled,
        if_pos rfl, pushedOf_handled, List.append_nil] at horder
      exact ⟨hhandles, hiff.mp horder⟩
    · have hdeleted : .deleted t.pipe t.number ∈ h ++ deliver pipe t := by
        simp [deliver, hhandles]
      exact absurd hdeleted (hf'.kept _ _)
  · rintro ⟨hhandles, hnext⟩
    rw [deliver_of_handles hhandles]
    constructor
    · intro p
      rw [handledOf_append, pushedOf_append, handledOf_handled, pushedOf_handled, List.append_nil]
      split
      · rename_i hp
        exact hp ▸ hiff.mpr hnext
      · rw [List.append_nil]
        exact hf.order p
    · intro p n hmem
      rcases List.mem_append.mp hmem with hmem | hmem
      · exact hf.kept p n hmem
      · cases List.mem_singleton.mp hmem
    · exact Machine.always_snoc.mpr ⟨hf.once, fun heq => by cases heq⟩

/-- How many events of a pipe have been handled after a delivery. -/
lemma length_handledOf_deliver (hhandles : (pipe t.pipe).handles t.type = true) (p : π) :
    (handledOf p (h ++ deliver pipe t)).length
      = (handledOf p h).length + if t.pipe = p then 1 else 0 := by
  rw [deliver_of_handles hhandles, handledOf_append, List.length_append, handledOf_handled]
  split <;> rfl

/-- The next event of a pipe is delivered. -/
lemma Tracked.deliver (ht : Tracked cores pipe e h)
    (hhandles : (pipe t.pipe).handles t.type = true) (hpushes : e'.pushes = e.pushes)
    (hself : Line ((handledOf t.pipe h).length + 1) (e.pushes t.pipe)
      (numbers t.pipe (e'.batch (pipe t.pipe).dest)) (numbers t.pipe e'.drained)
      (numbers t.pipe (e'.mailboxes (pipe t.pipe).dest) ++ e'.inProgress t.pipe))
    (hothers : ∀ p ≠ t.pipe, Line (handledOf p h).length (e.pushes p)
      (numbers p (e'.batch (pipe p).dest)) (numbers p e'.drained)
      (numbers p (e'.mailboxes (pipe p).dest) ++ e'.inProgress p))
    (hmailbox : ∀ c, ∀ t ∈ e'.mailboxes c, (pipe t.pipe).dest = c)
    (hbatch : ∀ c, ∀ t ∈ e'.batch c, (pipe t.pipe).dest = c)
    (hpushing : ∀ p t queued, e'.pushing p = some (t, queued) → t.pipe = p)
    (houtside : ∀ c ∉ cores, e'.threads c = none)
    (hidle : e'.main = .idle → ∀ c, e'.threads c = none) :
    Tracked cores pipe e' (h ++ Simplx.deliver pipe t) where
  pushed p := by
    rw [hpushes, deliver_of_handles hhandles, pushedOf_append, pushedOf_handled, List.append_nil]
    exact ht.pushed p
  line p := by
    rw [length_handledOf_deliver hhandles, hpushes]
    rcases eq_or_ne p t.pipe with rfl | hne
    · rw [if_pos rfl]
      exact hself
    · rw [if_neg hne.symm, Nat.add_zero]
      exact hothers p hne
  mailbox := hmailbox
  batch := hbatch
  pushing := hpushing
  outside := houtside
  idle := hidle

/-! ### The threads of the cores -/

omit [DecidableEq π] in
@[simp] lemma batch_of_batch {c : κ} {tasks : List (Task π τ)}
    (h : e.threads c = some (.batch tasks)) : e.batch c = tasks := by simp [batch, h]

variable [DecidableEq κ] {c : κ} {tasks : List (Task π τ)}

omit [DecidableEq κ] in
/-- The thread of a core runs its next task. -/
lemma Tracked.core_iff (ht : Tracked cores pipe e h) (hf : Faithful h)
    (hthread : e.threads c = some (.batch (t :: tasks))) : Faithful (h ++ Simplx.deliver pipe t) ↔
      (pipe t.pipe).handles t.type = true ∧ ∀ n ∈ numbers t.pipe e.drained, t.number < n := by
  have hbatch : e.batch c = t :: tasks := batch_of_batch hthread
  have hc : (pipe t.pipe).dest = c := ht.batch c t (by simp [hbatch])
  have hline := ht.line t.pipe
  rw [hc, hbatch, numbers_cons_self] at hline
  rw [faithful_deliver_iff hf ht (hline.mem_iff.mp (by simp)).2, hline.head_eq_iff]

lemma Tracked.core (ht : Tracked cores pipe e h)
    (hthread : e.threads c = some (.batch (t :: tasks)))
    (hhandles : (pipe t.pipe).handles t.type = true)
    (hfirst : ∀ n ∈ numbers t.pipe e.drained, t.number < n) :
    Tracked cores pipe { e with threads := Function.update e.threads c (some (.batch tasks)) }
      (h ++ Simplx.deliver pipe t) := by
  have hbatch : e.batch c = t :: tasks := batch_of_batch hthread
  have hc : (pipe t.pipe).dest = c := ht.batch c t (by simp [hbatch])
  set e' : Engine π κ τ :=
    { e with threads := Function.update e.threads c (some (.batch tasks)) } with he'
  have hbatch' : e'.batch c = tasks := batch_of_batch (by simp [he'])
  have hothers : ∀ c' ≠ c, e'.batch c' = e.batch c' := by
    intro c' hne
    simp [Engine.batch, he', hne]
  have hline := ht.line t.pipe
  rw [hc, hbatch, numbers_cons_self] at hline
  have hnext := hline.head_eq_iff.mpr hfirst
  rw [hnext] at hline
  refine ht.deliver hhandles rfl ?_ (fun p hne => ?_) ht.mailbox (fun c' t' ht' => ?_) ht.pushing
    (fun c' hc' => ?_) fun hidle c' => ?_
  · rw [hc, hbatch']
    exact hline.serve
  · have hp := ht.line p
    by_cases hdest : (pipe p).dest = c
    · rw [hdest, hbatch, numbers_cons_of_ne hne.symm] at hp
      rw [hdest, hbatch']
      exact hp
    · rw [hothers _ hdest]
      exact hp
  · by_cases hc' : c' = c
    · subst hc'
      rw [hbatch'] at ht'
      exact ht.batch c' t' (by simp [hbatch, ht'])
    · rw [hothers c' hc'] at ht'
      exact ht.batch c' t' ht'
  · have hne : c' ≠ c := fun heq => by
      rw [← heq, ht.outside c' hc'] at hthread
      cases hthread
    simp [he', hne, ht.outside c' hc']
  · have hnone := ht.idle hidle c
    rw [hthread] at hnone
    cases hnone

/-- The thread of a core takes what is in the mailbox. -/
lemma Tracked.takeCore (ht : Tracked cores pipe e h) (hthread : e.threads c = some .wait) :
    Tracked cores pipe { e with
      mailboxes := Function.update e.mailboxes c []
      threads := Function.update e.threads c (some (.batch (e.mailboxes c))) } h := by
  have hbatch : e.batch c = [] := by simp [Engine.batch, hthread]
  set e' : Engine π κ τ := { e with
    mailboxes := Function.update e.mailboxes c []
    threads := Function.update e.threads c (some (.batch (e.mailboxes c))) } with he'
  have hbatch' : e'.batch c = e.mailboxes c := batch_of_batch (by simp [he'])
  have hothers : ∀ c' ≠ c, e'.batch c' = e.batch c' ∧ e'.mailboxes c' = e.mailboxes c' := by
    intro c' hne
    simp [Engine.batch, he', hne]
  constructor
  case pushed => exact ht.pushed
  case line =>
    intro p
    have hp := ht.line p
    by_cases hdest : (pipe p).dest = c
    · have hmailbox' : e'.mailboxes c = [] := by simp [he']
      rw [hdest, hbatch, numbers_nil] at hp
      rw [hdest, hbatch', hmailbox', numbers_nil, List.nil_append]
      exact hp.take
    · rw [(hothers _ hdest).1, (hothers _ hdest).2]
      exact hp
  case mailbox =>
    intro c' t ht'
    by_cases hc' : c' = c
    · simp [he', hc'] at ht'
    · rw [(hothers c' hc').2] at ht'
      exact ht.mailbox c' t ht'
  case batch =>
    intro c' t ht'
    by_cases hc' : c' = c
    · subst hc'
      rw [hbatch'] at ht'
      exact ht.mailbox c' t ht'
    · rw [(hothers c' hc').1] at ht'
      exact ht.batch c' t ht'
  case pushing => exact ht.pushing
  case outside =>
    intro c' hc'
    have hne : c' ≠ c := fun heq => by
      rw [← heq, ht.outside c' hc'] at hthread
      cases hthread
    simp [he', hne, ht.outside c' hc']
  case idle =>
    intro hidle
    have hnone := ht.idle hidle c
    rw [hthread] at hnone
    cases hnone

/-! ### Draining -/

omit [DecidableEq κ] in
/-- `drain` runs its next task. -/
lemma Tracked.drain_iff (ht : Tracked cores pipe e h) (hf : Faithful h) {cs : List κ}
    (hdrain : e.drain = some (cs, t :: tasks)) : Faithful (h ++ Simplx.deliver pipe t) ↔
      (pipe t.pipe).handles t.type = true ∧
        ∀ n ∈ numbers t.pipe (e.batch (pipe t.pipe).dest), t.number < n := by
  have hdrained : e.drained = t :: tasks := by simp [Engine.drained, hdrain]
  have hline := (ht.line t.pipe).symm
  rw [hdrained, numbers_cons_self] at hline
  rw [faithful_deliver_iff hf ht (hline.mem_iff.mp (by simp)).2, hline.head_eq_iff]

omit [DecidableEq κ] in
lemma Tracked.drainTask (ht : Tracked cores pipe e h) {cs : List κ}
    (hdrain : e.drain = some (cs, t :: tasks)) (hhandles : (pipe t.pipe).handles t.type = true)
    (hfirst : ∀ n ∈ numbers t.pipe (e.batch (pipe t.pipe).dest), t.number < n) :
    Tracked cores pipe { e with drain := some (cs, tasks) } (h ++ Simplx.deliver pipe t) := by
  have hdrained : e.drained = t :: tasks := by simp [Engine.drained, hdrain]
  have hline := (ht.line t.pipe).symm
  rw [hdrained, numbers_cons_self] at hline
  have hnext := hline.head_eq_iff.mpr hfirst
  rw [hnext] at hline
  refine ht.deliver hhandles rfl hline.serve.symm (fun p hne => ?_) ht.mailbox ht.batch ht.pushing
    ht.outside ht.idle
  have hp := ht.line p
  rw [hdrained, numbers_cons_of_ne hne.symm] at hp
  exact hp

/-- `drain` takes what is in a mailbox. -/
lemma Tracked.takeDrain (ht : Tracked cores pipe e h) {cs : List κ}
    (hdrain : e.drain = some (c :: cs, [])) :
    Tracked cores pipe { e with
      mailboxes := Function.update e.mailboxes c []
      drain := some (cs, e.mailboxes c) } h := by
  have hdrained : e.drained = [] := by simp [Engine.drained, hdrain]
  set e' : Engine π κ τ := { e with
    mailboxes := Function.update e.mailboxes c []
    drain := some (cs, e.mailboxes c) } with he'
  have hdrained' : e'.drained = e.mailboxes c := by simp [Engine.drained, he']
  have hothers : ∀ c' ≠ c, e'.mailboxes c' = e.mailboxes c' := by
    intro c' hne
    simp [he', hne]
  constructor
  case pushed => exact ht.pushed
  case line =>
    intro p
    have hp := (ht.line p).symm
    rw [hdrained, numbers_nil] at hp
    rw [hdrained']
    by_cases hdest : (pipe p).dest = c
    · have hmailbox' : e'.mailboxes c = [] := by simp [he']
      rw [hdest, hmailbox', numbers_nil, List.nil_append]
      rw [hdest] at hp
      exact hp.take.symm
    · have hnone : numbers p (e.mailboxes c) = [] :=
        numbers_eq_nil fun t ht' heq => hdest (heq ▸ ht.mailbox c t ht')
      rw [hnone, hothers _ hdest]
      exact hp.symm
  case mailbox =>
    intro c' t ht'
    by_cases hc' : c' = c
    · simp [he', hc'] at ht'
    · rw [hothers c' hc'] at ht'
      exact ht.mailbox c' t ht'
  case batch => exact ht.batch
  case pushing => exact ht.pushing
  case outside => exact ht.outside
  case idle => exact ht.idle

/-! ### Pushes -/

variable {p : π}

omit [DecidableEq κ] in
/-- Only what has been pushed and handled matters of what there was to see. -/
lemma Tracked.congr (ht : Tracked cores pipe e h) {h' : List (LifeEvent π)}
    (hpushed : ∀ p, pushedOf p h' = pushedOf p h) (hhandled : ∀ p, handledOf p h' = handledOf p h) :
    Tracked cores pipe e h' :=
  { ht with
    pushed := fun p => (hpushed p).trans (ht.pushed p)
    line := fun p => by
      rw [hhandled]
      exact ht.line p }

omit [DecidableEq κ] in
/-- A push begins. -/
lemma Tracked.push (ht : Tracked cores pipe e h) (hpushing : e.pushing p = none) (type : τ)
    (queued : Bool) : Tracked cores pipe { e with
      pushing := Function.update e.pushing p (some (⟨p, e.pushes p, type⟩, queued))
      pushes := Function.update e.pushes p (e.pushes p + 1) }
      (h ++ [.pushed p (e.pushes p)]) := by
  set e' : Engine π κ τ := { e with
    pushing := Function.update e.pushing p (some (⟨p, e.pushes p, type⟩, queued))
    pushes := Function.update e.pushes p (e.pushes p + 1) } with he'
  constructor
  case pushed =>
    intro q
    rw [pushedOf_append, pushedOf_pushed, ht.pushed q]
    by_cases hq : p = q
    · subst hq
      simp [he', List.range_succ]
    · simp [he', hq, Function.update_of_ne (Ne.symm hq)]
  case line =>
    intro q
    have hline := ht.line q
    rw [handledOf_append, handledOf_pushed, List.append_nil]
    by_cases hq : q = p
    · subst hq
      have hnone : e.inProgress q = [] := by simp [inProgress, hpushing]
      have hpushes : e'.pushes q = e.pushes q + 1 := by simp [he']
      have hnumber : e'.inProgress q = [e.pushes q] := by simp [inProgress, he']
      rw [hnone, List.append_nil] at hline
      rw [hpushes, hnumber]
      exact hline.enter
    · have hpushes : e'.pushes q = e.pushes q := by simp [he', hq]
      have hsame : e'.inProgress q = e.inProgress q := by simp [inProgress, he', hq]
      rw [hpushes, hsame]
      exact hline
  case mailbox => exact ht.mailbox
  case batch => exact ht.batch
  case pushing =>
    intro q t queued' hq
    by_cases heq : q = p
    · subst heq
      simp only [he', Function.update_self, Option.some.injEq, Prod.mk.injEq] at hq
      rw [← hq.1]
    · simp only [he', Function.update_of_ne heq] at hq
      exact ht.pushing q t queued' hq
  case outside => exact ht.outside
  case idle => exact ht.idle

omit [DecidableEq κ] in
lemma faithful_push (hf : Faithful h) (n : ℕ) : Faithful (h ++ [.pushed p n]) where
  order q := by
    rw [handledOf_append, handledOf_pushed, List.append_nil, pushedOf_append]
    exact (hf.order q).trans (List.prefix_append _ _)
  kept q m hmem := by
    rcases List.mem_append.mp hmem with hmem | hmem
    · exact hf.kept q m hmem
    · cases List.mem_singleton.mp hmem
  once := Machine.always_snoc.mpr ⟨hf.once, fun heq => by cases heq⟩

/-- A push ends in the mailbox. -/
lemma Tracked.enqueue (ht : Tracked cores pipe e h) (hpushing : e.pushing p = some (t, true)) :
    Tracked cores pipe { e with
      pushing := Function.update e.pushing p none
      mailboxes := Function.update e.mailboxes (pipe p).dest
        (e.mailboxes (pipe p).dest ++ [t]) } h := by
  obtain rfl := ht.pushing p t true hpushing
  set c := (pipe t.pipe).dest with hc
  set e' : Engine π κ τ := { e with
    pushing := Function.update e.pushing t.pipe none
    mailboxes := Function.update e.mailboxes c (e.mailboxes c ++ [t]) } with he'
  have hmailbox : e'.mailboxes c = e.mailboxes c ++ [t] := by simp [he']
  have hothers : ∀ c' ≠ c, e'.mailboxes c' = e.mailboxes c' := fun c' hne => by simp [he', hne]
  constructor
  case pushed => exact ht.pushed
  case line =>
    intro q
    have hline := ht.line q
    by_cases hq : q = t.pipe
    · subst hq
      have hnumber : e.inProgress t.pipe = [t.number] := by simp [inProgress, hpushing]
      have hnone : e'.inProgress t.pipe = [] := by simp [inProgress, he']
      rw [hnumber] at hline
      rw [hnone, ← hc, hmailbox, numbers_append, List.append_nil, numbers_cons_self, numbers_nil]
      exact hline
    · have hsame : e'.inProgress q = e.inProgress q := by simp [inProgress, he', hq]
      have hnumbers : numbers q (e'.mailboxes (pipe q).dest)
          = numbers q (e.mailboxes (pipe q).dest) := by
        by_cases hdest : (pipe q).dest = c
        · rw [hdest, hmailbox, numbers_append, numbers_cons_of_ne (Ne.symm hq), numbers_nil,
            List.append_nil]
        · rw [hothers _ hdest]
      rw [hsame, hnumbers]
      exact hline
  case mailbox =>
    intro c' t' ht'
    by_cases hc' : c' = c
    · subst hc'
      rw [hmailbox, List.mem_append, List.mem_singleton] at ht'
      rcases ht' with ht' | rfl
      · exact ht.mailbox _ t' ht'
      · rfl
    · rw [hothers c' hc'] at ht'
      exact ht.mailbox c' t' ht'
  case batch => exact ht.batch
  case pushing =>
    intro q t' queued hq
    by_cases heq : q = t.pipe
    · simp [he', heq] at hq
    · simp only [he', Function.update_of_ne heq] at hq
      exact ht.pushing q t' queued hq
  case outside => exact ht.outside
  case idle => exact ht.idle

omit [DecidableEq κ] in
/-- A push ends in a delivery. -/
lemma Tracked.endPush_iff (ht : Tracked cores pipe e h) (hf : Faithful h)
    (hpushing : e.pushing p = some (t, false)) : Faithful (h ++ Simplx.deliver pipe t) ↔
      (pipe p).handles t.type = true ∧ numbers p (e.batch (pipe p).dest) = [] ∧
        numbers p e.drained = [] ∧ numbers p (e.mailboxes (pipe p).dest) = [] := by
  obtain rfl := ht.pushing p t false hpushing
  have hnumber : e.inProgress t.pipe = [t.number] := by simp [inProgress, hpushing]
  have hline := ht.line t.pipe
  rw [hnumber] at hline
  rw [faithful_deliver_iff hf ht (hline.mem_iff.mp (by simp)).2, hline.last_eq_iff]

omit [DecidableEq κ] in
lemma Tracked.deliverPush (ht : Tracked cores pipe e h) (hpushing : e.pushing p = some (t, false))
    (hhandles : (pipe p).handles t.type = true)
    (hbatch : numbers p (e.batch (pipe p).dest) = []) (hdrained : numbers p e.drained = [])
    (hmailbox : numbers p (e.mailboxes (pipe p).dest) = []) :
    Tracked cores pipe { e with pushing := Function.update e.pushing p none }
      (h ++ Simplx.deliver pipe t) := by
  obtain rfl := ht.pushing p t false hpushing
  have hnumber : e.inProgress t.pipe = [t.number] := by simp [inProgress, hpushing]
  have hline := ht.line t.pipe
  rw [hbatch, hdrained, hmailbox, hnumber] at hline
  have hnext : t.number = (handledOf t.pipe h).length := hline.last_eq_iff.mpr ⟨rfl, rfl, rfl⟩
  rw [hnext, List.nil_append] at hline
  set e' : Engine π κ τ := { e with pushing := Function.update e.pushing t.pipe none } with he'
  refine ht.deliver hhandles rfl ?_ (fun q hne => ?_) ht.mailbox ht.batch (fun q t' queued hq => ?_)
    ht.outside ht.idle
  · have hnone : e'.inProgress t.pipe = [] := by simp [inProgress, he']
    show Line _ _ (numbers t.pipe (e.batch (pipe t.pipe).dest)) (numbers t.pipe e.drained)
      (numbers t.pipe (e.mailboxes (pipe t.pipe).dest) ++ e'.inProgress t.pipe)
    rw [hbatch, hdrained, hmailbox, hnone, hline.serve_last]
    exact .empty _
  · have hsame : e'.inProgress q = e.inProgress q := by simp [inProgress, he', hne]
    rw [hsame]
    exact ht.line q
  · by_cases heq : q = t.pipe
    · simp [he', heq] at hq
    · simp only [he', Function.update_of_ne heq] at hq
      exact ht.pushing q t' queued hq

/-! ### The destructor -/

omit [DecidableEq κ] in
/-- The engine may be destroyed exactly if all events have been handled. -/
lemma Tracked.destroyed_iff (ht : Tracked cores pipe e h) (hf : Faithful h) :
    Faithful (h ++ [.destroyed]) ↔ ∀ p, (handledOf p h).length = e.pushes p := by
  constructor
  · intro hf' p
    have honce := (Machine.always_snoc.mp hf'.once).2 rfl p
    have hhandled := handledOf_eq (hf.order p) (ht.pushed p)
    refine ((ht.line p).le.eq_or_lt).resolve_right fun hlt => ?_
    have hmem : .pushed p (handledOf p h).length ∈ h := by
      rw [← mem_pushedOf, ht.pushed p, List.mem_range]
      exact hlt
    have hone := honce _ hmem
    rw [count_handledOf, hhandled, List.length_range, List.count_eq_zero.mpr (by simp)] at hone
    cases hone
  · intro hall
    constructor
    · intro p
      rw [handledOf_append, pushedOf_append]
      exact (List.append_nil (handledOf p h)).symm ▸ (List.append_nil (pushedOf p h)).symm ▸
        hf.order p
    · intro p n hmem
      rcases List.mem_append.mp hmem with hmem | hmem
      · exact hf.kept p n hmem
      · cases List.mem_singleton.mp hmem
    · refine Machine.always_snoc.mpr ⟨hf.once, fun _ p n hmem => ?_⟩
      have hhandled := handledOf_eq (hf.order p) (ht.pushed p)
      rw [← mem_pushedOf, ht.pushed p, ← hall p, ← hhandled] at hmem
      rw [count_handledOf]
      exact List.count_eq_one_of_mem (hhandled ▸ List.nodup_range) hmem

omit [DecidableEq κ] in
/-- All events have been handled exactly if none is on its way. -/
lemma Tracked.handled_iff (ht : Tracked cores pipe e h) (hmain : e.main = .idle)
    (hdrain : e.drain = none) : (∀ p, (handledOf p h).length = e.pushes p) ↔
      (∀ c, e.mailboxes c = []) ∧ ∀ p, e.pushing p = none := by
  have hbatch : ∀ c, e.batch c = [] := fun c => by simp [Engine.batch, ht.idle hmain c]
  have hdrained : e.drained = [] := by simp [Engine.drained, hdrain]
  have hline : ∀ p, (handledOf p h).length = e.pushes p ↔
      numbers p (e.mailboxes (pipe p).dest) = [] ∧ e.inProgress p = [] := by
    intro p
    rw [(ht.line p).eq_iff, hbatch, hdrained, numbers_nil, List.append_eq_nil_iff]
    simp
  simp only [hline]
  constructor
  · intro hall
    refine ⟨fun c => List.eq_nil_iff_forall_not_mem.mpr fun t ht' => ?_, fun p => ?_⟩
    · have hnone := (hall t.pipe).1
      rw [ht.mailbox c t ht'] at hnone
      have hmem : t.number ∈ numbers t.pipe (e.mailboxes c) :=
        List.mem_map_of_mem (List.mem_filter.mpr ⟨ht', decide_eq_true rfl⟩)
      rw [hnone] at hmem
      cases hmem
    · have hnone := (hall p).2
      simpa [inProgress] using hnone
  · rintro ⟨hmailboxes, hpushing⟩ p
    exact ⟨by rw [hmailboxes, numbers_nil], by simp [inProgress, hpushing]⟩

/-! ### Steps -/

variable {action : Action π κ τ}

/-- A step that leaves nothing behind, and keeps track of all events. -/
def Follows (cores : List κ) (pipe : π → Pipe κ τ) (h : List (LifeEvent π)) (P : Prop)
    (next : Engine π κ τ × List (LifeEvent π)) : Prop :=
  (Faithful (h ++ next.2) ↔ P) ∧ (P → Tracked cores pipe next.1 (h ++ next.2))

omit [DecidableEq κ] in
/-- A step at which nothing can go wrong. -/
lemma Tracked.follows {P : Prop} (ht : Tracked cores pipe e' h) (hf : Faithful h) (hP : P) :
    Follows cores pipe h P (e', []) := by
  rw [Follows, List.append_nil]
  exact ⟨iff_of_true hf hP, fun _ => ht⟩

omit [DecidableEq κ] in
/-- A step does no harm where it runs no event. -/
lemma safe_endPush (h : ∀ t, e.pushing p ≠ some (t, false)) : e.Safe pipe (.endPush p) :=
  fun t hpushing => absurd hpushing (h t)

omit [DecidableEq κ] in
lemma safe_endPush_iff (h : e.pushing p = some (t, false)) : e.Safe pipe (.endPush p) ↔
    (pipe p).handles t.type = true ∧ numbers p (e.batch (pipe p).dest) = [] ∧
      numbers p e.drained = [] ∧ numbers p (e.mailboxes (pipe p).dest) = [] := by
  refine ⟨fun hsafe => hsafe t h, fun hsafe t' hpushing => ?_⟩
  obtain ⟨rfl, -⟩ := Prod.mk.inj (Option.some.inj (h.symm.trans hpushing))
  exact hsafe

omit [DecidableEq κ] in
lemma safe_core (h : ∀ t tasks, e.threads c ≠ some (.batch (t :: tasks))) :
    e.Safe pipe (.core c) :=
  fun t tasks hthread => absurd hthread (h t tasks)

omit [DecidableEq κ] in
lemma safe_core_iff (h : e.threads c = some (.batch (t :: tasks))) : e.Safe pipe (.core c) ↔
    (pipe t.pipe).handles t.type = true ∧ ∀ n ∈ numbers t.pipe e.drained, t.number < n := by
  refine ⟨fun hsafe => hsafe t tasks h, fun hsafe t' tasks' hthread => ?_⟩
  cases h.symm.trans hthread
  exact hsafe

omit [DecidableEq κ] in
lemma safe_drainStep (h : ∀ cs t tasks, e.drain ≠ some (cs, t :: tasks)) :
    e.Safe pipe .drainStep :=
  fun cs t tasks hdrain => absurd hdrain (h cs t tasks)

omit [DecidableEq κ] in
lemma safe_drainStep_iff {cs : List κ} (h : e.drain = some (cs, t :: tasks)) :
    e.Safe pipe .drainStep ↔ (pipe t.pipe).handles t.type = true ∧
      ∀ n ∈ numbers t.pipe (e.batch (pipe t.pipe).dest), t.number < n := by
  refine ⟨fun hsafe => hsafe cs t tasks h, fun hsafe cs' t' tasks' hdrain => ?_⟩
  cases h.symm.trans hdrain
  exact hsafe

lemma Tracked.follows_push (ht : Tracked cores pipe e h) (hf : Faithful h) (type : τ) :
    Follows cores pipe h (e.Safe pipe (.push p type)) (e.push cores pipe p type) := by
  unfold Engine.push
  cases hpushing : e.pushing p with
  | none => exact ⟨iff_of_true (faithful_push hf _) trivial, fun _ => ht.push hpushing type _⟩
  | some x => exact ht.follows hf trivial

lemma Tracked.follows_endPush (ht : Tracked cores pipe e h) (hf : Faithful h) :
    Follows cores pipe h (e.Safe pipe (.endPush p)) (e.endPush pipe p) := by
  unfold Engine.endPush
  cases hpushing : e.pushing p with
  | none => exact ht.follows hf (safe_endPush fun t => by simp [hpushing])
  | some x =>
    obtain ⟨t, queued⟩ := x
    cases queued with
    | true => exact (ht.enqueue hpushing).follows hf (safe_endPush fun t => by simp [hpushing])
    | false =>
      rw [safe_endPush_iff hpushing]
      refine ⟨ht.endPush_iff hf hpushing, fun hsafe => ?_⟩
      obtain ⟨hhandles, hbatch, hdrained, hmailbox⟩ := hsafe
      exact ht.deliverPush hpushing hhandles hbatch hdrained hmailbox

/-- The thread of a core, with no event in hand before or after. -/
lemma Tracked.update_thread (ht : Tracked cores pipe e h) {thread : Thread π τ}
    {thread' : Option (Thread π τ)} (hthread : e.threads c = some thread)
    (hbatch : e.batch c = []) (hnone : ∀ tasks, thread' = some (.batch tasks) → tasks = []) :
    Tracked cores pipe { e with threads := Function.update e.threads c thread' } h := by
  refine ht.quiet rfl rfl rfl (fun c' => ?_) rfl (fun c' hc' => ?_) fun hidle => ?_
  · by_cases hc' : c' = c
    · subst hc'
      rw [hbatch]
      cases thread' with
      | none => simp [Engine.batch]
      | some thread' =>
        cases thread' with
        | batch tasks => simp [Engine.batch, hnone tasks rfl]
        | _ => simp [Engine.batch]
    · simp [Engine.batch, hc']
  · have hne : c' ≠ c := fun heq => by
      rw [← heq, ht.outside c' hc'] at hthread
      cases hthread
    simp [hne, ht.outside c' hc']
  · rw [ht.idle hidle c] at hthread
    cases hthread

lemma Tracked.follows_core (ht : Tracked cores pipe e h) (hf : Faithful h) :
    Follows cores pipe h (e.Safe pipe (.core c)) (e.stepCore pipe c) := by
  unfold stepCore
  cases hthread : e.threads c with
  | none => exact ht.follows hf (safe_core fun t tasks => by simp [hthread])
  | some thread =>
    cases thread with
    | test =>
      have hbatch : e.batch c = [] := by simp [Engine.batch, hthread]
      refine (ht.update_thread hthread hbatch fun tasks htasks => ?_).follows hf
        (safe_core fun t tasks => by simp [hthread])
      split at htasks <;> cases htasks
    | wait => exact (ht.takeCore hthread).follows hf (safe_core fun t tasks => by simp [hthread])
    | batch tasks =>
      cases tasks with
      | nil =>
        refine (ht.update_thread hthread (batch_of_batch hthread) fun tasks htasks => ?_).follows hf
          (safe_core fun t tasks => by simp [hthread])
        cases htasks
      | cons t tasks =>
        rw [safe_core_iff hthread]
        exact ⟨ht.core_iff hf hthread, fun hsafe => ht.core hthread hsafe.1 hsafe.2⟩

lemma Tracked.follows_runFor (ht : Tracked cores pipe e h) (hf : Faithful h) :
    Follows cores pipe h (e.Safe pipe .runFor) (e.runFor cores, []) := by
  refine Tracked.follows ?_ hf trivial
  unfold Engine.runFor
  split
  · rename_i hmain
    refine ht.quiet rfl rfl rfl (fun c => ?_) rfl (fun c hc => if_neg hc) fun hidle => ?_
    rotate_left
    · cases hidle
    by_cases hc : c ∈ cores <;> simp [Engine.batch, hc, ht.idle hmain c]
  · exact ht

omit [DecidableEq κ] in
lemma Tracked.follows_join (ht : Tracked cores pipe e h) (hf : Faithful h) :
    Follows cores pipe h (e.Safe pipe .join) (e.join cores, []) := by
  refine Tracked.follows ?_ hf trivial
  unfold Engine.join
  split
  · rename_i hjoin
    refine ht.quiet rfl rfl rfl (fun _ => rfl) rfl ht.outside fun _ c => ?_
    by_cases hc : c ∈ cores
    · exact Option.isNone_iff_eq_none.mp (hjoin.2 c hc)
    · exact ht.outside c hc
  · exact ht

omit [DecidableEq κ] in
lemma Tracked.follows_wake (ht : Tracked cores pipe e h) (hf : Faithful h) :
    Follows cores pipe h (e.Safe pipe .wake) (e.wake, []) := by
  refine Tracked.follows ?_ hf trivial
  unfold Engine.wake
  split
  · exact ht.quiet rfl rfl rfl (fun _ => rfl) rfl ht.outside fun hidle => by cases hidle
  · exact ht

lemma Tracked.follows_drainStep (ht : Tracked cores pipe e h) (hf : Faithful h) :
    Follows cores pipe h (e.Safe pipe .drainStep) (e.stepDrain pipe) := by
  unfold stepDrain
  cases hdrain : e.drain with
  | none => exact ht.follows hf (safe_drainStep fun cs t tasks => by simp [hdrain])
  | some left =>
    obtain ⟨cs, tasks⟩ := left
    cases tasks with
    | cons t tasks =>
      rw [safe_drainStep_iff hdrain]
      cases cs <;>
        exact ⟨ht.drain_iff hf hdrain, fun hsafe => ht.drainTask hdrain hsafe.1 hsafe.2⟩
    | nil =>
      have hsafe : e.Safe pipe .drainStep := safe_drainStep fun cs t tasks => by simp [hdrain]
      cases cs with
      | nil =>
        refine Tracked.follows ?_ hf hsafe
        have hdrained : ({ e with drain := none } : Engine π κ τ).drained = e.drained := by
          simp [Engine.drained, hdrain]
        exact ht.quiet rfl rfl rfl (fun _ => rfl) hdrained ht.outside ht.idle
      | cons c cs => exact (ht.takeDrain hdrain).follows hf hsafe

omit [DecidableEq κ] in
lemma Tracked.follows_destroy (ht : Tracked cores pipe e h) (hf : Faithful h) :
    Follows cores pipe h (e.Safe pipe .destroy) e.destroy := by
  unfold Engine.destroy
  split
  · rename_i hquiet
    obtain ⟨hmain, hdrain⟩ := hquiet
    rw [Option.isNone_iff_eq_none] at hdrain
    constructor
    · refine ((ht.destroyed_iff hf).trans (ht.handled_iff hmain hdrain)).trans ?_
      exact ⟨fun hsafe _ _ => hsafe, fun hsafe => hsafe hmain hdrain⟩
    · intro _
      have hsame : Tracked cores pipe { e with
          running := false, threadedMode := false, destroyed := true } h :=
        ht.quiet rfl rfl rfl (fun _ => rfl) rfl ht.outside ht.idle
      apply hsame.congr
      · exact fun p => pushedOf_append.trans (List.append_nil _)
      · exact fun p => handledOf_append.trans (List.append_nil _)
  · rename_i hbusy
    refine ht.follows hf fun hmain hdrain => absurd ⟨hmain, ?_⟩ hbusy
    rw [hdrain, Option.isNone_none]

/-- A step of a live engine. -/
lemma Tracked.follows_act (ht : Tracked cores pipe e h) (hf : Faithful h) :
    Follows cores pipe h (e.Safe pipe action) (e.act cores pipe action) := by
  cases action with
  | push p type => exact ht.follows_push hf type
  | endPush p => exact ht.follows_endPush hf
  | core c => exact ht.follows_core hf
  | runFor => exact ht.follows_runFor hf
  | wake => exact ht.follows_wake hf
  | join => exact ht.follows_join hf
  | drainStep => exact ht.follows_drainStep hf
  | destroy => exact ht.follows_destroy hf
  | deadline | stop =>
    apply Tracked.follows _ hf trivial
    exact ht.quiet rfl rfl rfl (fun _ => rfl) rfl ht.outside ht.idle
  | drain =>
    refine Tracked.follows (ht.quiet rfl rfl rfl (fun _ => rfl) ?_ ht.outside ht.idle) hf trivial
    cases hdrain : e.drain <;> simp [Engine.drained, hdrain]

lemma Tracked.follows_step (ht : Tracked cores pipe e h) (hf : Faithful h) :
    Follows cores pipe h (e.destroyed = false → e.Safe pipe action) (e.step cores pipe action) := by
  unfold Engine.step
  split
  · rename_i hd
    exact ht.follows hf fun hlive => absurd (hd.symm.trans hlive) Bool.true_eq_false.mp
  · rename_i hd
    simp only [Bool.not_eq_true] at hd
    simp only [hd, forall_const]
    exact ht.follows_act hf

end

/-! ### Runs -/

variable [DecidableEq κ]

/-- In every run of an engine, no event is lost or reordered exactly if no step of it leaves an
event behind. -/
theorem run_faithful_iff (cores : List κ) (pipe : π → Pipe κ τ) (actions : List (Action π κ τ)) :
    Machine.Throughout (Machine.recording (step cores pipe)) (fun s => Faithful s.2)
        ({}, []) actions ↔
      Machine.Along (step cores pipe) (fun e action => e.destroyed = false → e.Safe pipe action)
        {} actions := by
  rw [← Machine.along_recording (h := [])]
  have htrue : Machine.Along (Machine.recording (step cores pipe)) (fun _ _ => True)
      ({}, []) actions := Machine.along_of_forall fun _ _ => trivial
  have hiff : Machine.Throughout (Machine.recording (step cores pipe)) (fun s => Faithful s.2)
        ({}, []) actions ∧
        Machine.Along (Machine.recording (step cores pipe)) (fun _ _ => True) ({}, []) actions ↔
      Machine.Along (Machine.recording (step cores pipe))
        (fun s action => s.1.destroyed = false → s.1.Safe pipe action) ({}, []) actions :=
    Machine.throughout_along_iff_of_kept (A := fun _ _ => True)
      (I := fun s : Engine π κ τ × List (LifeEvent π) => Tracked cores pipe s.1 s.2)
      (fun s action _ hsafe ht hf => (ht.follows_step hf).2 hsafe)
      (fun s action _ ht hf => (and_iff_left trivial).trans (ht.follows_step hf).1)
      htrue .empty .empty
  simpa [htrue] using hiff

/-- Two cores. The thread of the second ends before a callback of the first sends it an event, and
the engine is destroyed with the event in the mailbox. -/
def droppedRun : List (Action Unit Bool Unit) :=
  [.runFor, .core false, .core false, .wake, .core true, .push () (), .endPush (), .core false,
    .core false, .join, .destroy]

/-- The event is never handled. -/
theorem not_faithful_droppedRun : ¬Machine.Throughout
    (Machine.recording (step [false, true] fun _ => ⟨false, true, fun _ => true⟩))
    (fun s => Faithful s.2) ({}, []) droppedRun := by
  intro h
  have hlast := h.2.2.2.2.2.2.2.2.2.2.2
  have honce := hlast.once [.pushed () 0] .destroyed [] (by decide) rfl () 0 (by decide)
  exact absurd honce (by decide)

end Engine

end EuNEx.Simplx
