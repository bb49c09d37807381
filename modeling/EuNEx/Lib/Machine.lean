import Mathlib.Data.List.Basic
import Mathlib.Tactic.Common

/-!
# Machines with output, and their histories

A machine is a function `step : σ → ι → σ × List ω`: from a state and an input to the next state
and the events it emits. `run` feeds it a list of inputs. Properties of runs come in three shapes:
an invariant of the state and of all events emitted so far (`run_induction`), a property of every
state visited (`Throughout`), and a property of every event given the events before it (`Always`).
-/

namespace Machine

variable {σ ι ω : Type*}

/-- Run the machine over a list of inputs: the last state and all events, in order. -/
def run (step : σ → ι → σ × List ω) : σ → List ι → σ × List ω
  | s, [] => (s, [])
  | s, i :: is => ((run step (step s i).1 is).1, (step s i).2 ++ (run step (step s i).1 is).2)

/-- Every input of the run meets `C` in the state it is given to. -/
def Along (step : σ → ι → σ × List ω) (C : σ → ι → Prop) : σ → List ι → Prop
  | _, [] => True
  | s, i :: is => C s i ∧ Along step C (step s i).1 is

/-- Every state of the run satisfies `P`, the first and the last included. -/
def Throughout (step : σ → ι → σ × List ω) (P : σ → Prop) : σ → List ι → Prop
  | s, [] => P s
  | s, i :: is => P s ∧ Throughout step P (step s i).1 is

instance Along.decidable (step : σ → ι → σ × List ω) (C : σ → ι → Prop)
    [∀ s i, Decidable (C s i)] : ∀ s is, Decidable (Along step C s is)
  | _, [] => inferInstanceAs (Decidable True)
  | s, i :: is => @instDecidableAnd _ _ _ (Along.decidable step C (step s i).1 is)

section

variable {step : σ → ι → σ × List ω} {C : σ → ι → Prop} {P : σ → Prop} {s : σ} {i : ι}
  {is js : List ι} {h : List ω}

@[simp] lemma run_nil : run step s [] = (s, []) := rfl

@[simp] lemma run_cons : run step s (i :: is)
    = ((run step (step s i).1 is).1, (step s i).2 ++ (run step (step s i).1 is).2) := rfl

lemma run_snoc (is : List ι) (i : ι) : run step s (is ++ [i])
    = ((step (run step s is).1 i).1, (run step s is).2 ++ (step (run step s is).1 i).2) := by
  induction is generalizing s with
  | nil => simp
  | cons j is ih => simp [ih]

@[simp] lemma along_nil : Along step C s [] := trivial

@[simp] lemma along_cons :
    Along step C s (i :: is) ↔ C s i ∧ Along step C (step s i).1 is := Iff.rfl

lemma along_of_forall {A : ι → Prop} (hA : ∀ i ∈ is, A i) : Along step (fun _ i => A i) s is := by
  induction is generalizing s with
  | nil => trivial
  | cons i is ih => exact ⟨hA i (by simp), ih fun j hj => hA j (by simp [hj])⟩

lemma along_of_not_mem {j : ι} (hj : j ∉ is) : Along step (fun _ i => i ≠ j) s is :=
  along_of_forall (A := fun i => i ≠ j) fun _ hi heq => hj (heq ▸ hi)

/-- The induction over runs: what one step preserves, of the state and of the events emitted so
far, a whole run preserves. -/
theorem run_induction {Q : σ → List ω → Prop}
    (hstep : ∀ s h i, C s i → Q s h → Q (step s i).1 (h ++ (step s i).2))
    (hC : Along step C s is) (hQ : Q s h) :
    Q (run step s is).1 (h ++ (run step s is).2) := by
  induction is generalizing s h with
  | nil => simpa using hQ
  | cons i is ih => simpa using ih hC.2 (hstep s h i hC.1 hQ)

lemma Along.and {D : σ → ι → Prop} (hC : Along step C s is) (hD : Along step D s is) :
    Along step (fun s i => C s i ∧ D s i) s is := by
  induction is generalizing s with
  | nil => trivial
  | cons i is ih => exact ⟨⟨hC.1, hD.1⟩, ih hC.2 hD.2⟩

lemma Throughout.head (h : Throughout step P s is) : P s := by
  cases is with
  | nil => exact h
  | cons i is => exact h.1

/-- What every step that meets `C` keeps holds of every state of a run whose steps all meet it. -/
theorem throughout_of_along (hstep : ∀ s i, C s i → P s → P (step s i).1)
    (hC : Along step C s is) (hP : P s) : Throughout step P s is := by
  induction is generalizing s with
  | nil => exact hP
  | cons i is ih => exact ⟨hP, ih hC.2 (hstep s i hC.1 hP)⟩

lemma Throughout.mono {P' : σ → Prop} (h : Throughout step P s is) (hP : ∀ s, P s → P' s) :
    Throughout step P' s is := by
  induction is generalizing s with
  | nil => exact hP s h
  | cons i is ih => exact ⟨hP s h.1, ih h.2⟩

variable (step) in
/-- What a run emits comes out of what the state has left, if it does so in each step. -/
theorem filterMap_run_sublist {α : Type*} {f : ω → Option α} {I : σ → Prop} {g : σ → List α}
    (hI : ∀ s i, C s i → I s → I (step s i).1)
    (hg : ∀ s i, C s i → I s → ((step s i).2.filterMap f ++ g (step s i).1).Sublist (g s))
    (hC : Along step C s is) (hIs : I s) :
    ((run step s is).2.filterMap f ++ g (run step s is).1).Sublist (g s) := by
  induction is generalizing s with
  | nil => exact List.Sublist.refl _
  | cons i is ih =>
    have hrest := ih hC.2 (hI s i hC.1 hIs)
    rw [run_cons, List.filterMap_append, List.append_assoc]
    exact (hrest.append_left _).trans (hg s i hC.1 hIs)

/-- Two conditions that agree in the states with an invariant agree along a run. -/
theorem along_congr {D : σ → ι → Prop} {I : σ → Prop} (hI : ∀ s i, I s → I (step s i).1)
    (hiff : ∀ s i, I s → (D s i ↔ C s i)) (hIs : I s) :
    Along step D s is ↔ Along step C s is := by
  induction is generalizing s with
  | nil => rfl
  | cons i is ih => rw [along_cons, along_cons, hiff s i hIs, ih (hI s i hIs)]

/-- Where each step keeps `P` and meets `D` exactly if it meets `C`, a run keeps `P` throughout and
meets `D` at every step exactly if all of its steps meet `C`. `I` is an invariant that the
equivalence of a step may rely on, and that the steps that meet `C` keep. -/
theorem throughout_along_iff_of_kept {A D : σ → ι → Prop} {I : σ → Prop}
    (hI : ∀ s i, A s i → C s i → I s → P s → I (step s i).1)
    (hP : ∀ s i, A s i → I s → P s → (P (step s i).1 ∧ D s i ↔ C s i))
    (hA : Along step A s is) (hIs : I s) (hPs : P s) :
    Throughout step P s is ∧ Along step D s is ↔ Along step C s is := by
  induction is generalizing s with
  | nil => simpa [Throughout] using hPs
  | cons i is ih =>
    have hstep := hP s i hA.1 hIs hPs
    simp only [Throughout, along_cons, hPs, true_and]
    constructor
    · rintro ⟨hT, hD, hDs⟩
      have hPs' := hT.head
      have hC := hstep.mp ⟨hPs', hD⟩
      exact ⟨hC, (ih hA.2 (hI s i hA.1 hC hIs hPs) hPs').mp ⟨hT, hDs⟩⟩
    · rintro ⟨hC, hrest⟩
      obtain ⟨hPs', hD⟩ := hstep.mpr hC
      obtain ⟨hT, hDs⟩ := (ih hA.2 (hI s i hA.1 hC hIs hPs) hPs').mpr hrest
      exact ⟨hT, hD, hDs⟩

/-- The same for an invariant that every step keeps. -/
theorem throughout_along_iff {A D : σ → ι → Prop} {I : σ → Prop}
    (hI : ∀ s i, A s i → I s → I (step s i).1)
    (hP : ∀ s i, A s i → I s → P s → (P (step s i).1 ∧ D s i ↔ C s i))
    (hA : Along step A s is) (hIs : I s) (hPs : P s) :
    Throughout step P s is ∧ Along step D s is ↔ Along step C s is :=
  throughout_along_iff_of_kept (fun s i hA _ hI' _ => hI s i hA hI') hP hA hIs hPs

/-- The same where the steps only have to keep `P`. -/
theorem throughout_iff_along_of {A : σ → ι → Prop} {I : σ → Prop}
    (hI : ∀ s i, A s i → I s → I (step s i).1)
    (hP : ∀ s i, A s i → I s → P s → (P (step s i).1 ↔ C s i))
    (hA : Along step A s is) (hIs : I s) (hPs : P s) :
    Throughout step P s is ↔ Along step C s is := by
  have htrue : Along step (fun _ _ => True) s is := along_of_forall (by simp)
  have hiff := throughout_along_iff (D := fun _ _ => True) hI
    (fun s i hA hI hPs => by simpa using hP s i hA hI hPs) hA hIs hPs
  simpa [htrue] using hiff

/-- The same where every input is allowed. -/
theorem throughout_iff_along {I : σ → Prop} (hI : ∀ s i, I s → I (step s i).1)
    (hP : ∀ s i, I s → P s → (P (step s i).1 ↔ C s i)) (hIs : I s) (hPs : P s) :
    Throughout step P s is ↔ Along step C s is :=
  throughout_iff_along_of (A := fun _ _ => True) (fun s i _ => hI s i) (fun s i _ => hP s i)
    (along_of_forall (by simp)) hIs hPs

/-- The same for an invariant that only the steps that meet `C` keep. -/
theorem throughout_iff_along_of_kept {I : σ → Prop}
    (hI : ∀ s i, C s i → I s → P s → I (step s i).1)
    (hP : ∀ s i, I s → P s → (P (step s i).1 ↔ C s i)) (hIs : I s) (hPs : P s) :
    Throughout step P s is ↔ Along step C s is := by
  have htrue : Along step (fun _ _ => True) s is := along_of_forall (by simp)
  have hiff := throughout_along_iff_of_kept (A := fun _ _ => True) (D := fun _ _ => True)
    (fun s i _ => hI s i) (fun s i _ hIs hPs => by simpa using hP s i hIs hPs) htrue hIs hPs
  simpa [htrue] using hiff

end

/-- The machine that keeps its history in its state. -/
def recording (step : σ → ι → σ × List ω) : σ × List ω → ι → (σ × List ω) × List ω
  | (s, h), i => (((step s i).1, h ++ (step s i).2), (step s i).2)

/-! ### Steps that may get stuck -/

section

variable {α : Type*} {f : σ → α → Option σ} {P : σ → Prop} {s : σ} {as : List α}

/-- A fold goes through if every step does, from every state with the invariant. -/
theorem foldlM_returns (hstep : ∀ s a, P s → ∃ s', f s a = some s' ∧ P s') (hP : P s) :
    ∃ s', as.foldlM f s = some s' ∧ P s' := by
  induction as generalizing s with
  | nil => exact ⟨s, rfl, hP⟩
  | cons a as ih =>
    obtain ⟨s', hs', hP'⟩ := hstep s a hP
    obtain ⟨t, ht, hPt⟩ := ih hP'
    exact ⟨t, by rw [List.foldlM_cons, hs']; exact ht, hPt⟩

/-- What every step keeps, a fold that goes through keeps. -/
theorem foldlM_keeps {s' : σ} (hstep : ∀ s a s', P s → f s a = some s' → P s')
    (hs' : as.foldlM f s = some s') (hP : P s) : P s' := by
  induction as generalizing s with
  | nil =>
    cases hs'
    exact hP
  | cons a as ih =>
    rw [List.foldlM_cons] at hs'
    obtain ⟨t, ht, hrest⟩ := Option.bind_eq_some_iff.mp hs'
    exact ih hrest (hstep s a t hP ht)

/-- A fold gets stuck if some step does, from every state with the invariant. -/
theorem foldlM_stuck (hstep : ∀ s a s', P s → f s a = some s' → P s')
    (hstuck : ∃ a ∈ as, ∀ s, P s → f s a = none) (hP : P s) : as.foldlM f s = none := by
  induction as generalizing s with
  | nil =>
    obtain ⟨a, ha, -⟩ := hstuck
    cases ha
  | cons a as ih =>
    rw [List.foldlM_cons]
    cases hs' : f s a with
    | none => rfl
    | some s' =>
      obtain ⟨b, hb, hnone⟩ := hstuck
      rcases List.mem_cons.mp hb with rfl | hb
      · rw [hnone s hP] at hs'
        cases hs'
      · exact ih ⟨b, hb, hnone⟩ (hstep s a s' hP hs')

end

/-! ### Histories -/

/-- Every event of the history satisfies `P`, given the events before it. -/
def Always (P : List ω → ω → Prop) (h : List ω) : Prop :=
  ∀ pre x post, h = pre ++ x :: post → P pre x

section

variable {P : List ω → ω → Prop} {h k : List ω} {x : ω}

@[simp] lemma always_nil : Always P [] := by
  intro pre x post h
  simp at h

lemma always_of_mem (hP : ∀ x ∈ h, ∀ pre, (∀ y ∈ pre, y ∈ h) → P pre x) : Always P h := by
  rintro pre x post rfl
  exact hP x (by simp) pre fun y hy => by simp [hy]

lemma Always.append_left (hP : Always P (h ++ k)) : Always P h := by
  intro pre x post heq
  exact hP pre x (post ++ k) (by simp [heq])

theorem always_append :
    Always P (h ++ k) ↔ Always P h ∧ Always (fun pre x => P (h ++ pre) x) k := by
  constructor
  · intro hP
    refine ⟨hP.append_left, fun pre x post heq => ?_⟩
    exact hP (h ++ pre) x post (by simp [heq])
  · rintro ⟨hh, hk⟩ pre x post heq
    rcases List.append_eq_append_iff.mp heq with ⟨as, rfl, hk'⟩ | ⟨as, rfl, hx⟩
    · exact hk as x post hk'
    · cases as with
      | nil => simpa using hk [] x post (by simpa using hx.symm)
      | cons a as =>
        simp only [List.cons_append, List.cons.injEq] at hx
        obtain ⟨rfl, -⟩ := hx
        exact hh pre x as rfl

lemma always_singleton : Always P [x] ↔ P [] x := by
  constructor
  · intro h
    exact h [] x [] rfl
  · intro h pre y post heq
    cases pre with
    | nil => simp only [List.nil_append, List.cons.injEq] at heq; exact heq.1 ▸ h
    | cons a as => simp at heq

theorem always_snoc : Always P (h ++ [x]) ↔ Always P h ∧ P h x := by
  simp [always_append, always_singleton]

end

/-! ### Histories of runs -/

section

variable {step : σ → ι → σ × List ω} {P : List ω → ω → Prop} {s : σ} {is : List ι} {h : List ω}

lemma along_recording {C : σ → ι → Prop} :
    Along (recording step) (fun s i => C s.1 i) (s, h) is ↔ Along step C s is := by
  induction is generalizing s h with
  | nil => rfl
  | cons i is ih => exact and_congr Iff.rfl ih

lemma throughout_always :
    Throughout (recording step) (fun s => Always P s.2) (s, h) is ↔
      Always P (h ++ (run step s is).2) := by
  induction is generalizing s h with
  | nil => simp [Throughout]
  | cons i is ih =>
    simp only [Throughout, recording, ih, run_cons, List.append_assoc, and_iff_right_iff_imp]
    exact Always.append_left

/-- Where the events of each step satisfy `P` exactly if the step meets `C`, all events of a run
satisfy it exactly if all steps meet `C`. -/
theorem always_iff_along {C : σ × List ω → ι → Prop} {I : σ × List ω → Prop}
    (hI : ∀ s h i, C (s, h) i → I (s, h) → I ((step s i).1, h ++ (step s i).2))
    (hP : ∀ s h i, I (s, h) → Always P h →
      (Always (fun pre x => P (h ++ pre) x) (step s i).2 ↔ C (s, h) i))
    (hIs : I (s, [])) :
    Always P (run step s is).2 ↔ Along (recording step) C (s, []) is := by
  rw [← List.nil_append (run step s is).2, ← throughout_always]
  refine throughout_iff_along_of_kept (I := I) (fun t i hC hIt _ => hI t.1 t.2 i hC hIt) ?_ hIs
    always_nil
  intro t i hIt hPt
  have hstep := hP t.1 t.2 i hIt hPt
  simpa only [recording, always_append, hPt, true_and] using hstep

end

/-! ### Components -/

section

variable {τ κ υ : Type*} {step : σ → ι → σ × List ω} {step' : τ → κ → τ × List υ} {f : σ → τ}
  {p : ι → Option κ} {q : ω → Option υ} {s : σ} {is : List ι}

/-- A machine inside of a machine: an input is a move of it or leaves it as it is, and its events
are among those of the whole. -/
structure IsComponent (step : σ → ι → σ × List ω) (step' : τ → κ → τ × List υ) (f : σ → τ)
    (p : ι → Option κ) (q : ω → Option υ) : Prop where
  moves : ∀ s i k, p i = some k →
    f (step s i).1 = (step' (f s) k).1 ∧ (step s i).2.filterMap q = (step' (f s) k).2
  rests : ∀ s i, p i = none → f (step s i).1 = f s ∧ (step s i).2.filterMap q = []

/-- The component runs as it would alone. -/
theorem IsComponent.run_eq (hc : IsComponent step step' f p q) :
    f (run step s is).1 = (run step' (f s) (is.filterMap p)).1 ∧
      (run step s is).2.filterMap q = (run step' (f s) (is.filterMap p)).2 := by
  induction is generalizing s with
  | nil => exact ⟨rfl, rfl⟩
  | cons i is ih =>
    obtain ⟨hstate, hevents⟩ := ih (s := (step s i).1)
    rw [run_cons, List.filterMap_append, hstate, hevents]
    cases hp : p i with
    | none =>
      rw [List.filterMap_cons_none hp, (hc.rests s i hp).1, (hc.rests s i hp).2]
      exact ⟨rfl, rfl⟩
    | some k =>
      rw [List.filterMap_cons_some hp, run_cons, (hc.moves s i k hp).1, (hc.moves s i k hp).2]
      exact ⟨rfl, rfl⟩

/-- A condition on the moves of the component holds along the run exactly if it holds along the
run of the component. -/
theorem IsComponent.along_iff {C : τ → κ → Prop} (hc : IsComponent step step' f p q) :
    Along step (fun s i => ∀ k ∈ p i, C (f s) k) s is
      ↔ Along step' C (f s) (is.filterMap p) := by
  induction is generalizing s with
  | nil => rfl
  | cons i is ih =>
    rw [along_cons, ih]
    cases hp : p i with
    | none => simp [List.filterMap_cons_none hp, (hc.rests s i hp).1]
    | some k => simp [List.filterMap_cons_some hp, (hc.moves s i k hp).1]

end

end Machine
