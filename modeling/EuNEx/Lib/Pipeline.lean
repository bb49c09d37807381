import EuNEx.Lib.Machine
import Mathlib.Data.List.Perm.Basic
import Mathlib.Logic.Function.Basic

/-!
# Workers with mailboxes

A source hands jobs to workers, and what the workers put out goes to sinks. Source, workers and
sinks are placed on cores. In threaded mode a push to another core is queued in the mailbox of that
core, and a push on the same core is delivered at once; in synchronous mode every push is delivered
at once. Whatever the placement and whatever the schedule, every worker handles its jobs in the
order in which they were submitted, and every sink takes the outputs of one worker in the order in
which they were put out. So once all mailboxes are empty, only the order in which a sink sees the
outputs of different workers is open.
-/

/-- What the parts do: the worker that a job is for, if any; how a worker does a job; the sink that
an output goes to, if any; and how the sinks, taken together, take an output of a worker. -/
structure Pipeline (ι α β σ τ δ : Type*) where
  key : α → Option ι
  work : σ → α → σ × List β
  sink : β → Option δ
  absorb : τ → ι × β → τ

namespace Pipeline

/-- The cores that the parts are placed on. -/
structure Placement (ι δ κ : Type*) where
  source : κ
  worker : ι → κ
  sink : δ → κ

/-- What waits in a mailbox. -/
inductive Task (ι α β : Type*) where
  | job (i : ι) (a : α)
  | output (i : ι) (b : β)
deriving DecidableEq

structure State (ι α β σ τ κ : Type*) where
  workers : ι → σ
  store : τ
  mail : κ → List (Task ι α β)

/-- A turn of a schedule: the next job is submitted, or a core runs its next task. -/
inductive Turn (κ : Type*) where
  | call
  | core (c : κ)

variable {ι α β σ τ δ κ : Type*}

section

variable [DecidableEq ι] [DecidableEq κ] (p : Pipeline ι α β σ τ δ) (pl : Placement ι δ κ)
  (threaded : Bool) (s : State ι α β σ τ κ)

/-- Add a task to the mailbox of a core. -/
def State.enqueue (c : κ) (t : Task ι α β) : State ι α β σ τ κ :=
  { s with mail := Function.update s.mail c (s.mail c ++ [t]) }

/-- A sink takes an output. -/
def deliver (i : ι) (b : β) : State ι α β σ τ κ := { s with store := p.absorb s.store (i, b) }

/-- A worker pushes an output. -/
def push (i : ι) (b : β) : State ι α β σ τ κ :=
  match p.sink b with
  | none => s
  | some d =>
    if threaded ∧ pl.sink d ≠ pl.worker i then s.enqueue (pl.sink d) (.output i b)
    else p.deliver s i b

/-- A worker does a job. -/
def doJob (i : ι) (a : α) : State ι α β σ τ κ :=
  let r := p.work (s.workers i) a
  r.2.foldl (fun s b => p.push pl threaded s i b)
    { s with workers := Function.update s.workers i r.1 }

/-- The source pushes a job. -/
def submit (a : α) : State ι α β σ τ κ :=
  match p.key a with
  | none => s
  | some i =>
    if threaded ∧ pl.worker i ≠ pl.source then s.enqueue (pl.worker i) (.job i a)
    else p.doJob pl threaded s i a

/-- A core runs the first task of its mailbox. -/
def runCore (c : κ) : State ι α β σ τ κ :=
  match s.mail c with
  | [] => s
  | .job i a :: rest => p.doJob pl threaded { s with mail := Function.update s.mail c rest } i a
  | .output i b :: rest => p.deliver { s with mail := Function.update s.mail c rest } i b

/-- One turn, with the jobs that are still to be submitted. -/
def turn (r : State ι α β σ τ κ × List α) : Turn κ → State ι α β σ τ κ × List α
  | .call =>
    match r.2 with
    | [] => r
    | a :: as => (p.submit pl threaded r.1 a, as)
  | .core c => (p.runCore pl threaded r.1 c, r.2)

/-- A schedule. -/
def exec (schedule : List (Turn κ)) (start : State ι α β σ τ κ × List α) :
    State ι α β σ τ κ × List α :=
  schedule.foldl (p.turn pl threaded) start

end

/-- Nothing is left to do. -/
def Quiescent (r : State ι α β σ τ κ × List α) : Prop := r.2 = [] ∧ ∀ c, r.1.mail c = []

/-- Nothing has been done. -/
def start (init : ι → σ) (store : τ) : State ι α β σ τ κ := ⟨init, store, fun _ => []⟩

/-! ### Mailboxes -/

section

variable [DecidableEq κ] {s : State ι α β σ τ κ} {t : Task ι α β} {rest : List (Task ι α β)} {c : κ}

lemma mail_enqueue (c' : κ) :
    (s.enqueue c t).mail c' = s.mail c' ++ if c' = c then [t] else [] := by
  by_cases hc : c' = c
  · simp [State.enqueue, hc]
  · simp [State.enqueue, hc]

/-- The first task of a mailbox is taken out. -/
lemma mail_dequeue (hmail : s.mail c = t :: rest) (c' : κ) :
    s.mail c' = (if c' = c then [t] else []) ++ Function.update s.mail c rest c' := by
  by_cases hc : c' = c
  · simp [hc, hmail]
  · simp [hc]

end

/-! ### Streams -/

/-- The outputs in a mailbox. -/
def posted (tasks : List (Task ι α β)) : List (ι × β) :=
  tasks.filterMap fun
    | .job _ _ => none
    | .output i b => some (i, b)

section

variable {i : ι} {a : α} {b : β} {tasks tasks' : List (Task ι α β)}

@[simp] lemma posted_nil : posted ([] : List (Task ι α β)) = [] := rfl

@[simp] lemma posted_append : posted (tasks ++ tasks') = posted tasks ++ posted tasks' :=
  List.filterMap_append ..

@[simp] lemma posted_job : posted (.job i a :: tasks) = posted tasks := rfl

@[simp] lemma posted_output : posted (.output i b :: tasks) = (i, b) :: posted tasks := rfl

end

variable [DecidableEq ι] [DecidableEq δ]

/-- The jobs of a worker in a mailbox. -/
def jobs (i : ι) (tasks : List (Task ι α β)) : List α :=
  tasks.filterMap fun
    | .job j a => if j = i then some a else none
    | .output _ _ => none

section

variable (p : Pipeline ι α β σ τ δ)

/-- The outputs of one worker to one sink. -/
def stream (i : ι) (d : δ) (l : List (ι × β)) : List (ι × β) :=
  l.filter fun x => x.1 = i ∧ p.sink x.2 = some d

variable {p} {i j : ι} {d : δ} {a : α} {b : β} {l l' : List (ι × β)}
  {tasks tasks' : List (Task ι α β)}

@[simp] lemma stream_nil : p.stream i d [] = [] := rfl

@[simp] lemma stream_append : p.stream i d (l ++ l') = p.stream i d l ++ p.stream i d l' :=
  List.filter_append ..

lemma stream_cons : p.stream i d ((j, b) :: l)
    = if j = i ∧ p.sink b = some d then (j, b) :: p.stream i d l else p.stream i d l := by
  by_cases h : j = i ∧ p.sink b = some d <;> simp [stream, h]

lemma stream_eq_map : p.stream i d l = ((p.stream i d l).map Prod.snd).map (i, ·) := by
  rw [List.map_map]
  conv_lhs => rw [← List.map_id (p.stream i d l)]
  apply List.map_congr_left
  rintro ⟨j, b⟩ hx
  obtain ⟨rfl, -⟩ : j = i ∧ p.sink b = some d := by simpa using (List.mem_filter.mp hx).2
  rfl

lemma stream_singleton : p.stream i d [(j, b)]
    = if j = i ∧ p.sink b = some d then [(j, b)] else [] := stream_cons

@[simp] lemma jobs_nil : jobs i ([] : List (Task ι α β)) = [] := rfl

@[simp] lemma jobs_append : jobs i (tasks ++ tasks') = jobs i tasks ++ jobs i tasks' :=
  List.filterMap_append ..

lemma jobs_job : jobs i (.job j a :: tasks)
    = if j = i then a :: jobs i tasks else jobs i tasks := by
  by_cases h : j = i <;> simp [jobs, h]

@[simp] lemma jobs_output : jobs i (.output j b :: tasks) = jobs i tasks := rfl

end

/-! ### The invariant -/

section

variable (p : Pipeline ι α β σ τ δ) (pl : Placement ι δ κ) (threaded : Bool)

/-- The task has been pushed to this core from another one. -/
def Crossed (c : κ) : Task ι α β → Prop
  | .job i _ => pl.worker i = c ∧ pl.source ≠ c
  | .output i b => ∃ d, p.sink b = some d ∧ pl.sink d = c ∧ pl.worker i ≠ c

/-- All that has been put out has been taken by its sink, or waits there, in order. -/
structure Streams (store : τ) (absorbed emitted : List (ι × β)) (s : State ι α β σ τ κ) : Prop where
  crossed : ∀ c, ∀ t ∈ s.mail c, threaded = true ∧ p.Crossed pl c t
  store : s.store = absorbed.foldl p.absorb store
  outputs : ∀ i d, p.stream i d emitted
    = p.stream i d absorbed ++ p.stream i d (posted (s.mail (pl.sink d)))

/-- Every worker has done the first of its jobs, and the others wait for it, in order. -/
structure Works (init : ι → σ) (calls : List α) (emitted : List (ι × β))
    (s : State ι α β σ τ κ) : Prop where
  worker : ∀ i, ∃ done, calls.filter (fun a => p.key a = some i)
      = done ++ jobs i (s.mail (pl.worker i)) ∧
    s.workers i = (Machine.run p.work (init i) done).1 ∧
    (emitted.filter fun x => x.1 = i).map Prod.snd = (Machine.run p.work (init i) done).2

end

section

variable {p : Pipeline ι α β σ τ δ} {pl : Placement ι δ κ} {threaded : Bool}
  {s : State ι α β σ τ κ} {store : τ} {init : ι → σ} {absorbed emitted : List (ι × β)}
  {calls : List α} {i j : ι} {a : α} {b : β} {c : κ}

/-- No output waits that its worker would have delivered at once. -/
lemma Streams.posted_eq_nil (h : p.Streams pl threaded store absorbed emitted s) {d : δ}
    (hsame : ¬(threaded = true ∧ pl.sink d ≠ pl.worker i)) :
    p.stream i d (posted (s.mail (pl.sink d))) = [] := by
  apply List.filter_eq_nil_iff.mpr
  rintro ⟨j, b⟩ hmem
  simp only [decide_eq_true_eq, not_and]
  rintro rfl hsink
  simp only [posted, List.mem_filterMap] at hmem
  obtain ⟨t, ht, heq⟩ := hmem
  cases t with
  | job j a => cases heq
  | output j b =>
    cases heq
    obtain ⟨hthreaded, d', hsink', hplace, hne⟩ := h.crossed _ _ ht
    exact hsame ⟨hthreaded, hne.symm⟩

/-- A sink takes an output that is first in its stream. -/
lemma Streams.deliver (h : p.Streams pl threaded store absorbed emitted s) {d : δ}
    (hsink : p.sink b = some d) (hsame : ¬(threaded = true ∧ pl.sink d ≠ pl.worker i)) :
    p.Streams pl threaded store (absorbed ++ [(i, b)]) (emitted ++ [(i, b)]) (p.deliver s i b) := by
  refine ⟨h.crossed, by simp [Pipeline.deliver, h.store], fun j d' => ?_⟩
  have hold : p.stream j d' emitted
      = p.stream j d' absorbed ++ p.stream j d' (posted ((p.deliver s i b).mail (pl.sink d'))) :=
    h.outputs j d'
  rw [stream_append, stream_append, hold, stream_singleton]
  split
  · rename_i heq
    obtain ⟨rfl, hd⟩ := heq
    have hnone : p.stream i d' (posted ((p.deliver s i b).mail (pl.sink d'))) = [] :=
      h.posted_eq_nil (by rwa [← Option.some.inj (hsink.symm.trans hd)])
    rw [hnone, List.append_nil, List.append_nil]
  · simp

variable [DecidableEq κ]

omit [DecidableEq ι] [DecidableEq δ] in
/-- What is queued for another core has crossed to it. -/
lemma crossed_enqueue {t : Task ι α β} (h : ∀ c, ∀ t ∈ s.mail c, threaded = true ∧ p.Crossed pl c t)
    (ht : threaded = true ∧ p.Crossed pl c t) :
    ∀ c', ∀ t' ∈ (s.enqueue c t).mail c', threaded = true ∧ p.Crossed pl c' t' := by
  intro c' t' ht'
  rw [mail_enqueue, List.mem_append] at ht'
  rcases ht' with ht' | ht'
  · exact h c' t' ht'
  · split at ht'
    · rename_i hc
      rw [List.mem_singleton.mp ht', hc]
      exact ht
    · cases ht'

lemma Streams.push (h : p.Streams pl threaded store absorbed emitted s) (i : ι) (b : β) :
    ∃ absorbed', p.Streams pl threaded store absorbed' (emitted ++ [(i, b)])
      (p.push pl threaded s i b) := by
  rw [Pipeline.push]
  cases hsink : p.sink b with
  | none =>
    refine ⟨absorbed, h.crossed, h.store, fun j d => ?_⟩
    rw [stream_append, stream_singleton, if_neg (by simp [hsink]), List.append_nil]
    exact h.outputs j d
  | some d =>
    dsimp only
    split
    · rename_i hcross
      refine ⟨absorbed, crossed_enqueue h.crossed ⟨hcross.1, d, hsink, rfl, hcross.2.symm⟩,
        h.store, fun j d' => ?_⟩
      rw [stream_append, h.outputs j d', mail_enqueue, posted_append, stream_append,
        List.append_assoc]
      by_cases hd : pl.sink d' = pl.sink d
      · rw [if_pos hd]
        rfl
      · have hne : ¬(i = j ∧ p.sink b = some d') := by
          rintro ⟨-, hd'⟩
          exact hd (congrArg pl.sink (Option.some.inj (hd'.symm.trans hsink)))
        rw [if_neg hd, stream_singleton, if_neg hne]
        rfl
    · rename_i hsame
      exact ⟨_, h.deliver hsink hsame⟩

omit [DecidableEq ι] [DecidableEq δ] in
@[simp] lemma workers_push : (p.push pl threaded s i b).workers = s.workers := by
  rw [Pipeline.push]
  cases p.sink b with
  | none => rfl
  | some d =>
    dsimp only
    split <;> rfl

omit [DecidableEq δ] in
@[simp] lemma jobs_push (j : ι) (c : κ) :
    jobs j ((p.push pl threaded s i b).mail c) = jobs j (s.mail c) := by
  rw [Pipeline.push]
  cases p.sink b with
  | none => rfl
  | some d =>
    dsimp only
    split
    · rw [mail_enqueue, jobs_append]
      split <;> simp
    · rfl

/-- What the outputs of one job do. -/
lemma Streams.pushAll (h : p.Streams pl threaded store absorbed emitted s) (i : ι) (bs : List β) :
    (∃ absorbed', p.Streams pl threaded store absorbed' (emitted ++ bs.map (i, ·))
      (bs.foldl (fun s b => p.push pl threaded s i b) s)) ∧
    (bs.foldl (fun s b => p.push pl threaded s i b) s).workers = s.workers ∧
    ∀ j c, jobs j ((bs.foldl (fun s b => p.push pl threaded s i b) s).mail c)
      = jobs j (s.mail c) := by
  induction bs generalizing s absorbed emitted with
  | nil => exact ⟨⟨absorbed, by simpa using h⟩, rfl, fun j c => rfl⟩
  | cons b bs ih =>
    obtain ⟨absorbed', h'⟩ := h.push i b
    obtain ⟨⟨absorbed'', h''⟩, hworkers, hjobs⟩ := ih h'
    rw [List.append_assoc] at h''
    refine ⟨⟨absorbed'', h''⟩, hworkers.trans workers_push, fun j c => (hjobs j c).trans ?_⟩
    exact jobs_push j c

/-- What a job does, to the state in which it has left the mailbox. -/
lemma Streams.doJob (h : p.Streams pl threaded store absorbed emitted s) (i : ι) (a : α) :
    (∃ absorbed', p.Streams pl threaded store absorbed'
      (emitted ++ (p.work (s.workers i) a).2.map (i, ·)) (p.doJob pl threaded s i a)) ∧
    (p.doJob pl threaded s i a).workers
      = Function.update s.workers i (p.work (s.workers i) a).1 ∧
    ∀ j c, jobs j ((p.doJob pl threaded s i a).mail c) = jobs j (s.mail c) :=
  Streams.pushAll
    (s := { s with workers := Function.update s.workers i (p.work (s.workers i) a).1 })
    ⟨h.crossed, h.store, h.outputs⟩ i _

omit [DecidableEq δ] [DecidableEq κ] in
/-- A worker has done one more of its jobs: the first that waited, or a new one if none waited. -/
lemma Works.doJob {s' : State ι α β σ τ κ} {calls' : List α}
    (h : p.Works pl init calls emitted s)
    (hworkers : s'.workers = Function.update s.workers i (p.work (s.workers i) a).1)
    (hown : ∀ done, calls.filter (fun a => p.key a = some i)
        = done ++ jobs i (s.mail (pl.worker i)) →
      calls'.filter (fun a => p.key a = some i) = done ++ a :: jobs i (s'.mail (pl.worker i)))
    (hother : ∀ j ≠ i, calls'.filter (fun a => p.key a = some j)
        = calls.filter (fun a => p.key a = some j) ∧
      jobs j (s'.mail (pl.worker j)) = jobs j (s.mail (pl.worker j))) :
    p.Works pl init calls' (emitted ++ (p.work (s.workers i) a).2.map (i, ·)) s' := by
  constructor
  intro j
  obtain ⟨done, hcalls, hstate, houts⟩ := h.worker j
  by_cases hj : j = i
  · subst hj
    refine ⟨done ++ [a], by simpa using hown done hcalls, ?_, ?_⟩
    · rw [hworkers, Function.update_self, Machine.run_snoc, hstate]
    · rw [Machine.run_snoc, ← hstate, ← houts, List.filter_append, List.map_append]
      simp [List.filter_map, Function.comp_def]
  · obtain ⟨hcalls', hjobs⟩ := hother j hj
    refine ⟨done, by rw [hcalls', hjobs, hcalls], ?_, ?_⟩
    · rw [hworkers, Function.update_of_ne hj, hstate]
    · simp [List.filter_append, List.filter_map, Function.comp_def, Ne.symm hj, houts]

omit [DecidableEq δ] [DecidableEq κ] in
/-- No job waits that the source would have had done at once. -/
lemma Streams.jobs_eq_nil (hcrossed : ∀ c, ∀ t ∈ s.mail c, threaded = true ∧ p.Crossed pl c t)
    (hsame : ¬(threaded = true ∧ pl.worker i ≠ pl.source)) :
    jobs i (s.mail (pl.worker i)) = [] := by
  apply List.filterMap_eq_nil_iff.mpr
  intro t ht
  cases t with
  | job j a =>
    obtain ⟨hthreaded, hplace, hne⟩ := hcrossed _ _ ht
    exact absurd ⟨hthreaded, hne.symm⟩ hsame
  | output j b => rfl

variable (p pl threaded store init calls s) in
/-- The invariant, once these jobs have been submitted. -/
def Sound : Prop :=
  ∃ absorbed emitted, p.Streams pl threaded store absorbed emitted s ∧
    p.Works pl init calls emitted s

lemma Sound.submit (h : p.Sound pl threaded s store init calls) (a : α) :
    p.Sound pl threaded (p.submit pl threaded s a) store init (calls ++ [a]) := by
  obtain ⟨absorbed, emitted, hstreams, hworks⟩ := h
  rw [Pipeline.submit]
  cases hkey : p.key a with
  | none =>
    refine ⟨absorbed, emitted, hstreams, ⟨fun i => ?_⟩⟩
    simpa [List.filter_append, hkey] using hworks.worker i
  | some i =>
    have hcalls : ∀ j ≠ i, (calls ++ [a]).filter (fun a => p.key a = some j)
        = calls.filter fun a => p.key a = some j := by
      intro j hj
      simp [List.filter_append, hkey, Ne.symm hj]
    dsimp only
    split
    · -- the job waits at the core of its worker
      rename_i hcross
      refine ⟨absorbed, emitted, ⟨crossed_enqueue hstreams.crossed ⟨hcross.1, rfl, hcross.2.symm⟩,
        hstreams.store, fun j d => ?_⟩, ⟨fun j => ?_⟩⟩
      · rw [hstreams.outputs j d, mail_enqueue, posted_append]
        split <;> simp
      · obtain ⟨done, hdone, hstate, houts⟩ := hworks.worker j
        refine ⟨done, ?_, hstate, houts⟩
        rw [mail_enqueue, jobs_append, ← List.append_assoc, ← hdone]
        by_cases hj : j = i
        · simp [hj, List.filter_append, hkey, jobs_job]
        · rw [hcalls j hj]
          split <;> simp [jobs_job, Ne.symm hj]
    · -- the job is done at once, as none of the worker's jobs waits
      rename_i hsame
      obtain ⟨⟨absorbed', hstreams'⟩, hworkers, hjobs⟩ := hstreams.doJob i a
      refine ⟨absorbed', _, hstreams', hworks.doJob hworkers (fun done hdone => ?_) fun j hj => ?_⟩
      · have hnone := Streams.jobs_eq_nil hstreams.crossed hsame
        simp [List.filter_append, hdone, hjobs, hnone, hkey]
      · exact ⟨hcalls j hj, hjobs j _⟩

lemma Sound.runCore (h : p.Sound pl threaded s store init calls) (c : κ) :
    p.Sound pl threaded (p.runCore pl threaded s c) store init calls := by
  obtain ⟨absorbed, emitted, hstreams, hworks⟩ := h
  rw [Pipeline.runCore]
  cases hmail : s.mail c with
  | nil => exact ⟨absorbed, emitted, hstreams, hworks⟩
  | cons t rest =>
    obtain ⟨hthreaded, hplace⟩ := hstreams.crossed c t (by simp [hmail])
    have hcrossed : ∀ c', ∀ t' ∈ Function.update s.mail c rest c',
        threaded = true ∧ p.Crossed pl c' t' := by
      intro c' t' ht'
      apply hstreams.crossed
      rw [mail_dequeue hmail]
      exact List.mem_append_right _ ht'
    cases t with
    | job i a =>
      have hstart : p.Streams pl threaded store absorbed emitted
          { s with mail := Function.update s.mail c rest } := by
        refine ⟨hcrossed, hstreams.store, fun j d => ?_⟩
        rw [hstreams.outputs j d, mail_dequeue hmail, posted_append]
        split <;> simp
      obtain ⟨⟨absorbed', hstreams'⟩, hworkers, hjobs⟩ := hstart.doJob i a
      refine ⟨absorbed', _, hstreams', hworks.doJob hworkers (fun done hdone => ?_) fun j hj => ?_⟩
      · rw [hdone, hjobs, hplace.1, hmail, jobs_job, if_pos rfl]
        simp
      · refine ⟨rfl, (hjobs j _).trans ?_⟩
        rw [mail_dequeue hmail, jobs_append]
        split <;> simp [jobs_job, Ne.symm hj]
    | output i b =>
      obtain ⟨d, hsink, hd, -⟩ := hplace
      refine ⟨absorbed ++ [(i, b)], emitted, ⟨hcrossed, by simp [Pipeline.deliver, hstreams.store],
        fun j d' => ?_⟩, ⟨fun j => ?_⟩⟩
      · rw [hstreams.outputs j d', mail_dequeue hmail, posted_append, stream_append, stream_append,
          List.append_assoc]
        by_cases hd' : pl.sink d' = c
        · rw [if_pos hd']
          rfl
        · have hne : ¬(i = j ∧ p.sink b = some d') := by
            rintro ⟨-, heq⟩
            exact hd' (by rw [Option.some.inj (heq.symm.trans hsink), hd])
          rw [if_neg hd', stream_singleton, if_neg hne]
          rfl
      · obtain ⟨done, hdone, hstate, houts⟩ := hworks.worker j
        refine ⟨done, hdone.trans ?_, hstate, houts⟩
        rw [mail_dequeue hmail, jobs_append]
        split <;> simp [Pipeline.deliver]

/-- Every turn of a schedule keeps the invariant. -/
lemma Sound.exec {r : State ι α β σ τ κ × List α} (schedule : List (Turn κ))
    (h : p.Sound pl threaded r.1 store init calls) :
    ∃ submitted, calls ++ r.2 = submitted ++ (p.exec pl threaded schedule r).2 ∧
      p.Sound pl threaded (p.exec pl threaded schedule r).1 store init submitted := by
  induction schedule generalizing r calls with
  | nil => exact ⟨calls, rfl, h⟩
  | cons turn schedule ih =>
    cases turn with
    | core c => exact ih (r := (p.runCore pl threaded r.1 c, r.2)) (Sound.runCore h c)
    | call =>
      cases hr : r.2 with
      | nil =>
        have hturn : p.turn pl threaded r .call = r := by simp only [turn, hr]
        have hrest := ih h
        rw [exec, List.foldl_cons, hturn, ← hr]
        exact hrest
      | cons a as =>
        have hturn : p.turn pl threaded r .call = (p.submit pl threaded r.1 a, as) := by
          simp only [turn, hr]
        obtain ⟨submitted, hcalls, hsound⟩ :=
          ih (r := (p.submit pl threaded r.1 a, as)) (Sound.submit h a)
        rw [exec, List.foldl_cons, hturn]
        refine ⟨submitted, ?_, hsound⟩
        rwa [List.append_assoc, List.singleton_append] at hcalls

variable (p pl threaded store init) in
omit [DecidableEq κ] in
lemma sound_start : p.Sound pl threaded (start init store) store init [] :=
  ⟨[], [], ⟨by simp [start], rfl, fun i d => rfl⟩, ⟨fun i => ⟨[], rfl, rfl, rfl⟩⟩⟩

/-- Once nothing is left to do, every worker has done its jobs in order, and the sinks have taken
the outputs of all workers, those of one worker to one sink in order. -/
theorem quiescent_exec (schedule : List (Turn κ)) {r : State ι α β σ τ κ × List α}
    (hr : p.exec pl threaded schedule (start init store, calls) = r) (hdone : Quiescent r) :
    (∀ i, r.1.workers i
      = (Machine.run p.work (init i) (calls.filter fun a => p.key a = some i)).1) ∧
    ∃ absorbed : List (ι × β), r.1.store = absorbed.foldl p.absorb store ∧ ∀ i d,
      p.stream i d absorbed
        = ((Machine.run p.work (init i) (calls.filter fun a => p.key a = some i)).2.filter
          fun b => p.sink b = some d).map (i, ·) := by
  obtain ⟨submitted, hcalls, absorbed, emitted, hstreams, hworks⟩ :=
    Sound.exec (r := (start init store, calls)) schedule
      (sound_start p pl threaded store init)
  rw [hr] at hcalls hstreams hworks
  rw [List.nil_append, hdone.1, List.append_nil] at hcalls
  subst hcalls
  have hworker : ∀ i, r.1.workers i
        = (Machine.run p.work (init i) (calls.filter fun a => p.key a = some i)).1 ∧
      (emitted.filter fun x => x.1 = i).map Prod.snd
        = (Machine.run p.work (init i) (calls.filter fun a => p.key a = some i)).2 := by
    intro i
    obtain ⟨done, hfilter, hstate, houts⟩ := hworks.worker i
    rw [hdone.2, jobs_nil, List.append_nil] at hfilter
    rw [hfilter]
    exact ⟨hstate, houts⟩
  refine ⟨fun i => (hworker i).1, absorbed, hstreams.store, fun i d => ?_⟩
  have hall := hstreams.outputs i d
  rw [hdone.2, posted_nil, stream_nil, List.append_nil] at hall
  rw [← hall, stream_eq_map, ← (hworker i).2, stream, List.filter_map, List.filter_filter]
  congr 2
  apply List.filter_congr
  intro x _
  simp [Bool.and_comm]

/-! ### Synchronous mode -/

variable (p pl) in
/-- Every push is delivered at once. -/
def sync (calls : List α) (s : State ι α β σ τ κ) : State ι α β σ τ κ :=
  calls.foldl (fun s a => p.submit pl false s a) s

omit [DecidableEq δ] in
/-- Synchronous mode is a schedule too. -/
lemma exec_sync (calls : List α) (s : State ι α β σ τ κ) :
    p.exec pl false (calls.map fun _ => .call) (s, calls) = (p.sync pl calls s, []) := by
  induction calls generalizing s with
  | nil => rfl
  | cons a calls ih => exact ih (p.submit pl false s a)

lemma quiescent_sync (calls : List α) :
    Quiescent (p.exec pl false (calls.map fun _ => .call) (start init store, calls)) := by
  obtain ⟨submitted, -, absorbed, emitted, hstreams, -⟩ :=
    Sound.exec (r := (start init store, calls)) (calls.map fun _ => .call)
      (sound_start p pl false store init)
  refine ⟨by rw [exec_sync], fun c => List.eq_nil_iff_forall_not_mem.mpr fun t ht => ?_⟩
  exact Bool.false_ne_true (hstreams.crossed c t ht).1

/-! ### What only one stream touches -/

omit [DecidableEq κ] in
/-- If the outputs outside a stream do not touch what is observed, only the stream matters. -/
lemma observe_foldl {ο : Type*} (p : Pipeline ι α β σ τ δ) (obs : τ → ο) {d : δ}
    {l : List (ι × β)} {t t' : τ}
    (hin : ∀ t t' x, obs t = obs t' → obs (p.absorb t x) = obs (p.absorb t' x))
    (hout : ∀ t, ∀ x ∈ l, ¬(x.1 = i ∧ p.sink x.2 = some d) → obs (p.absorb t x) = obs t)
    (h : obs t = obs t') :
    obs (l.foldl p.absorb t) = obs ((p.stream i d l).foldl p.absorb t') := by
  induction l generalizing t t' with
  | nil => exact h
  | cons x l ih =>
    have hrest : ∀ t, ∀ x ∈ l, ¬(x.1 = i ∧ p.sink x.2 = some d) → obs (p.absorb t x) = obs t :=
      fun t x hx => hout t x (by simp [hx])
    obtain ⟨j, b⟩ := x
    rw [List.foldl_cons, stream_cons]
    split
    · exact ih hrest (hin t t' (j, b) h)
    · rename_i hne
      exact ih hrest ((hout t (j, b) (by simp) hne).trans h)

end

end Pipeline
