import Mathlib.Data.List.Forall2
import Mathlib.Tactic.Common

/-!
# Erasing while iterating

The loop `for (it = v.begin(); it != v.end(); )` whose body may stop the loop, erase the
element it stands on, or update that element and move on. `sweep` is this loop over a list,
threading a state; `sweepGroups` is the doubly nested loop over a list of keyed groups, where a
group left empty by the inner loop is itself erased.
-/

namespace Sweep

variable {σ κ α β : Type*}

/-- Visit the elements in order. The body answers `none` to stop, and otherwise the next state
with what is left of the element: nothing (erased) or its new value. -/
def sweep (visit : σ → α → Option (σ × Option α)) : σ → List α → σ × List α
  | s, [] => (s, [])
  | s, a :: as =>
    match visit s a with
    | none => (s, a :: as)
    | some (s', left) =>
      match sweep visit s' as with
      | (t, rest) => (t, left.toList ++ rest)

section

variable {visit : σ → α → Option (σ × Option α)} {s s' : σ} {a : α} {as : List α}

@[simp] lemma sweep_nil : sweep visit s [] = (s, []) := rfl

lemma sweep_cons_stop (h : visit s a = none) : sweep visit s (a :: as) = (s, a :: as) := by
  simp [sweep, h]

lemma sweep_cons_go {left : Option α} (h : visit s a = some (s', left)) :
    sweep visit s (a :: as)
      = ((sweep visit s' as).1, left.toList ++ (sweep visit s' as).2) := by
  simp [sweep, h]

/-- The loop rule, with the elements already passed (`done`) kept apart from those still to come
(`todo`). At the end the loop has either run out of elements or refused the next one. -/
theorem sweep_rule (visit : σ → α → Option (σ × Option α)) {P : σ → List α → List α → Prop}
    (step : ∀ s done a todo s' left, P s done (a :: todo) → visit s a = some (s', left) →
      P s' (done ++ left.toList) todo)
    (h : P s [] as) :
    ∃ done todo, (sweep visit s as).2 = done ++ todo ∧ P (sweep visit s as).1 done todo ∧
      ∀ a ∈ todo.head?, visit (sweep visit s as).1 a = none := by
  suffices H : ∀ (as : List α) (s : σ) (passed : List α), P s passed as →
      ∃ done todo, passed ++ (sweep visit s as).2 = done ++ todo ∧
        P (sweep visit s as).1 done todo ∧
        ∀ a ∈ todo.head?, visit (sweep visit s as).1 a = none by
    simpa using H as s [] h
  intro as
  induction as with
  | nil =>
    intro s passed h
    exact ⟨passed, [], by simp, h, by simp⟩
  | cons a as ih =>
    intro s passed h
    cases hv : visit s a with
    | none =>
      refine ⟨passed, a :: as, by simp [sweep_cons_stop hv], ?_, ?_⟩
      · simpa [sweep_cons_stop hv] using h
      · simpa [sweep_cons_stop hv] using hv
    | some r =>
      obtain ⟨s', left⟩ := r
      obtain ⟨done, todo, heq, hP, hstop⟩ :=
        ih s' (passed ++ left.toList) (step _ _ _ _ _ _ h hv)
      exact ⟨done, todo, by simpa [sweep_cons_go hv] using heq,
        by simpa [sweep_cons_go hv] using hP, by simpa [sweep_cons_go hv] using hstop⟩

/-- The loop rule for an invariant of the state and of the whole list as it stands. -/
theorem sweep_invariant (visit : σ → α → Option (σ × Option α)) {P : σ → List α → Prop}
    (step : ∀ s done a todo s' left, P s (done ++ a :: todo) → visit s a = some (s', left) →
      P s' (done ++ (left.toList ++ todo)))
    (h : P s as) : P (sweep visit s as).1 (sweep visit s as).2 := by
  obtain ⟨done, todo, heq, hP, -⟩ :=
    sweep_rule visit (P := fun s done todo => P s (done ++ todo))
      (fun s done a todo s' left h hv => by simpa using step s done a todo s' left h hv) h
  rw [heq]
  exact hP

/-- A property that each visit keeps, of the state and of the element it updates, holds of all
elements that are left. -/
theorem sweep_forall {I : σ → Prop} {Q : α → Prop}
    (step : ∀ s a s' left, I s → Q a → visit s a = some (s', left) → I s' ∧ ∀ a' ∈ left, Q a')
    (hI : I s) (hQ : ∀ a ∈ as, Q a) :
    I (sweep visit s as).1 ∧ ∀ a ∈ (sweep visit s as).2, Q a := by
  refine sweep_invariant visit (P := fun s as => I s ∧ ∀ a ∈ as, Q a) ?_ ⟨hI, hQ⟩
  rintro s done a todo s' left ⟨hI, hQ⟩ hv
  obtain ⟨hI', hleft⟩ := step s a s' left hI (hQ a (by simp)) hv
  refine ⟨hI', fun x hx => ?_⟩
  simp only [List.mem_append, Option.mem_toList] at hx
  rcases hx with hx | hx | hx
  · exact hQ x (by simp [hx])
  · exact hleft x hx
  · exact hQ x (by simp [hx])

/-- What a visit keeps of an element survives, in order: the loop can only drop entries. -/
theorem sweep_map_sublist {f : α → β}
    (step : ∀ s a s' a', visit s a = some (s', some a') → f a' = f a) :
    ((sweep visit s as).2.map f).Sublist (as.map f) := by
  refine sweep_invariant visit (P := fun _ bs => (bs.map f).Sublist (as.map f)) ?_
    (List.Sublist.refl _)
  intro s done a todo s' left h hv
  refine List.Sublist.trans ?_ h
  simp only [List.map_append, List.map_cons]
  apply List.Sublist.append (List.Sublist.refl _)
  cases left with
  | none => simp
  | some a' => simp [step s a s' a' hv]

end

/-! ### Loops side by side -/

lemma forall₂_imp_mem {R S : α → β → Prop} {as : List α} {bs : List β} (h : List.Forall₂ R as bs)
    (himp : ∀ a b, a ∈ as → b ∈ bs → R a b → S a b) : List.Forall₂ S as bs := by
  induction h with
  | nil => exact .nil
  | cons hab _ ih =>
    refine .cons (himp _ _ (by simp) (by simp) hab) (ih fun a b ha hb => ?_)
    exact himp a b (by simp [ha]) (by simp [hb])

lemma forall₂_exists_iff {R : α → β → Prop} {p : α → Prop} {q : β → Prop} {as : List α}
    {bs : List β} (h : List.Forall₂ R as bs) (hpq : ∀ a b, R a b → (p a ↔ q b)) :
    (∃ a ∈ as, p a) ↔ ∃ b ∈ bs, q b := by
  induction h with
  | nil => simp
  | cons hab _ ih => simp [hpq _ _ hab, ih]

/-- Two loops whose bodies answer alike, over elements that are alike, end alike. -/
theorem sweep_related {τ : Type*} {visit : σ → α → Option (σ × Option α)}
    {visit' : τ → β → Option (τ × Option β)} {R : σ → τ → Prop} {Q : α → β → Prop}
    (step : ∀ s t a b, R s t → Q a b →
      Option.Rel (fun r r' => R r.1 r'.1 ∧ Option.Rel Q r.2 r'.2) (visit s a) (visit' t b))
    {s : σ} {t : τ} {as : List α} {bs : List β} (hR : R s t) (hQ : List.Forall₂ Q as bs) :
    R (sweep visit s as).1 (sweep visit' t bs).1 ∧
      List.Forall₂ Q (sweep visit s as).2 (sweep visit' t bs).2 := by
  induction hQ generalizing s t with
  | nil => exact ⟨hR, .nil⟩
  | @cons a b as bs hab hrest ih =>
    have hstep := step s t a b hR hab
    cases hv : visit s a with
    | none =>
      rw [hv] at hstep
      cases hv' : visit' t b with
      | none =>
        rw [sweep_cons_stop hv, sweep_cons_stop hv']
        exact ⟨hR, .cons hab hrest⟩
      | some r' =>
        rw [hv'] at hstep
        cases hstep
    | some r =>
      rw [hv] at hstep
      cases hv' : visit' t b with
      | none =>
        rw [hv'] at hstep
        cases hstep
      | some r' =>
        rw [hv'] at hstep
        obtain ⟨s', left⟩ := r
        obtain ⟨t', left'⟩ := r'
        obtain ⟨hR', hleft⟩ := Option.rel_some_some.mp hstep
        obtain ⟨hend, hrest'⟩ := ih hR'
        rw [sweep_cons_go hv, sweep_cons_go hv']
        refine ⟨hend, List.rel_append ?_ hrest'⟩
        cases hleft with
        | none => exact .nil
        | some hab' => exact .cons hab' .nil

/-- A loop over renamed elements, from a renamed state, is the loop renamed. -/
theorem sweep_map {τ : Type*} {visit : σ → α → Option (σ × Option α)}
    {visit' : τ → β → Option (τ × Option β)} {f : σ → τ} {g : α → β}
    (step : ∀ s a, visit' (f s) (g a) = (visit s a).map (Prod.map f (Option.map g))) (s : σ)
    (as : List α) : sweep visit' (f s) (as.map g)
      = Prod.map f (List.map g) (sweep visit s as) := by
  induction as generalizing s with
  | nil => rfl
  | cons a as ih =>
    have hstep := step s a
    rw [List.map_cons]
    cases hv : visit s a with
    | none =>
      rw [hv] at hstep
      rw [sweep_cons_stop hv, sweep_cons_stop hstep]
      rfl
    | some r =>
      obtain ⟨s', left⟩ := r
      rw [hv] at hstep
      rw [sweep_cons_go hv, sweep_cons_go hstep, ih]
      cases left with
      | none => rfl
      | some left => rfl

/-! ### Groups -/

/-- One turn of the outer loop: stop, or sweep the group and erase it if nothing is left. -/
def visitGroup (stop : σ → κ → Bool) (visit : κ → σ → α → Option (σ × Option α)) (s : σ)
    (group : κ × List α) : Option (σ × Option (κ × List α)) :=
  if stop s group.1 then none
  else
    match sweep (visit group.1) s group.2 with
    | (t, rest) => some (t, if rest.isEmpty then none else some (group.1, rest))

/-- The doubly nested loop. -/
def sweepGroups (stop : σ → κ → Bool) (visit : κ → σ → α → Option (σ × Option α)) :
    σ → List (κ × List α) → σ × List (κ × List α) :=
  sweep (visitGroup stop visit)

/-- The elements of all groups, in order. -/
def ungroup (groups : List (κ × List α)) : List α :=
  groups.flatMap Prod.snd

@[simp] lemma ungroup_nil : ungroup ([] : List (κ × List α)) = [] := rfl

@[simp] lemma ungroup_cons (g : κ × List α) (gs : List (κ × List α)) :
    ungroup (g :: gs) = g.2 ++ ungroup gs := by simp [ungroup]

@[simp] lemma ungroup_append (gs hs : List (κ × List α)) :
    ungroup (gs ++ hs) = ungroup gs ++ ungroup hs := by simp [ungroup]

lemma mem_ungroup {a : α} {gs : List (κ × List α)} : a ∈ ungroup gs ↔ ∃ g ∈ gs, a ∈ g.2 := by
  simp [ungroup]

/-- The body of the flattened loop: both tests of the nested loop before every element. -/
def visitFlat (key : α → κ) (stop : σ → κ → Bool) (visit : κ → σ → α → Option (σ × Option α))
    (s : σ) (a : α) : Option (σ × Option α) :=
  if stop s (key a) then none else visit (key a) s a

section

variable {key : α → κ} {stop : σ → κ → Bool} {visit : κ → σ → α → Option (σ × Option α)}
  {s s' : σ} {groups : List (κ × List α)}

lemma visitGroup_eq_some {group : κ × List α} {left : Option (κ × List α)}
    (h : visitGroup stop visit s group = some (s', left)) :
    stop s group.1 = false ∧ s' = (sweep (visit group.1) s group.2).1 ∧
      ∀ g ∈ left, g.1 = group.1 ∧ g.2 = (sweep (visit group.1) s group.2).2 ∧ g.2 ≠ [] := by
  rw [visitGroup] at h
  split at h
  · cases h
  · rename_i hstop
    simp only [Option.some.injEq, Prod.mk.injEq] at h
    obtain ⟨rfl, rfl⟩ := h
    refine ⟨by simpa using hstop, rfl, fun g hg => ?_⟩
    split at hg
    · cases hg
    · rename_i hne
      cases hg
      exact ⟨rfl, rfl, by simpa using hne⟩

/-- No group that the nested loop leaves is empty, and their keys are the old ones in order. -/
theorem sweepGroups_keys_sublist :
    ((sweepGroups stop visit s groups).2.map Prod.fst).Sublist (groups.map Prod.fst) :=
  sweep_map_sublist fun _ _ _ g h => ((visitGroup_eq_some h).2.2 g rfl).1

/-- Within one group the flattened loop runs as the inner loop does. When the inner loop stops
early, `hend` makes the flattened loop stop on whatever follows. -/
lemma sweep_visitFlat_append {k : κ} {xs ys : List α} (hkey : ∀ a ∈ xs, key a = k)
    (hend : ∀ k s a, visit k s a = none → ∀ k', stop s k' = true)
    (hmid : ∀ k s a s' left, stop s k = false → visit k s a = some (s', left) →
      stop s' k = true → ∀ b, visit k s' b = none)
    (hs : stop s k = true → ∀ b, visit k s b = none) :
    sweep (visitFlat key stop visit) s (xs ++ ys)
      = ((sweep (visitFlat key stop visit) (sweep (visit k) s xs).1 ys).1,
          (sweep (visit k) s xs).2
            ++ (sweep (visitFlat key stop visit) (sweep (visit k) s xs).1 ys).2) := by
  induction xs generalizing s with
  | nil => simp
  | cons x xs ih =>
    have hx : key x = k := hkey x (by simp)
    have hxs : ∀ a ∈ xs, key a = k := fun a ha => hkey a (by simp [ha])
    cases hv : visit k s x with
    | none =>
      have hflat : visitFlat key stop visit s x = none := by
        simp [visitFlat, hend _ _ _ hv]
      have hys : sweep (visitFlat key stop visit) s ys = (s, ys) := by
        cases ys with
        | nil => rfl
        | cons y ys => exact sweep_cons_stop (by simp [visitFlat, hend _ _ _ hv])
      simp [sweep_cons_stop hv, sweep_cons_stop hflat, hys]
    | some r =>
      obtain ⟨s', left⟩ := r
      have hgo : stop s k = false := by
        by_contra hstop
        simp [hs (by simpa using hstop) x] at hv
      have hflat : visitFlat key stop visit s x = some (s', left) := by
        simp [visitFlat, hx, hgo, hv]
      rw [List.cons_append, sweep_cons_go hflat, sweep_cons_go hv,
        ih hxs (hmid _ _ _ _ _ hgo hv)]
      simp

/-- The nested loop does to the groups what the flattened loop does to their elements. -/
theorem sweepGroups_flat (hkey : ∀ g ∈ groups, ∀ a ∈ g.2, key a = g.1)
    (hne : ∀ g ∈ groups, g.2 ≠ [])
    (hend : ∀ k s a, visit k s a = none → ∀ k', stop s k' = true)
    (hmid : ∀ k s a s' left, stop s k = false → visit k s a = some (s', left) →
      stop s' k = true → ∀ b, visit k s' b = none) :
    sweep (visitFlat key stop visit) s (ungroup groups)
      = ((sweepGroups stop visit s groups).1, ungroup (sweepGroups stop visit s groups).2) := by
  induction groups generalizing s with
  | nil => rfl
  | cons g gs ih =>
    have hgs := fun {s : σ} => ih (s := s) (fun g' hg' => hkey g' (by simp [hg']))
      (fun g' hg' => hne g' (by simp [hg']))
    have hg := hkey g (by simp)
    rcases hstop : stop s g.1 with _ | _
    · have hv : visitGroup stop visit s g
          = some ((sweep (visit g.1) s g.2).1, if (sweep (visit g.1) s g.2).2.isEmpty then none
              else some (g.1, (sweep (visit g.1) s g.2).2)) := by
        simp [visitGroup, hstop]
      rw [ungroup_cons, sweep_visitFlat_append hg hend hmid (by simp [hstop]), hgs]
      simp only [sweepGroups, sweep_cons_go hv, ungroup_append, Prod.mk.injEq, true_and]
      congr 1
      split <;> simp_all
    · obtain ⟨x, xs, hx⟩ := List.exists_cons_of_ne_nil (hne g (by simp))
      have hflat : visitFlat key stop visit s x = none := by
        simp [visitFlat, hg x (by simp [hx]), hstop]
      have hv : visitGroup stop visit s g = none := by simp [visitGroup, hstop]
      simp [sweepGroups, sweep_cons_stop hv, hx, sweep_cons_stop hflat]

end

end Sweep
