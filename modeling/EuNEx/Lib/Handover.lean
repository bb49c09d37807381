import Mathlib.Data.List.Perm.Basic
import Mathlib.Data.List.Range
import Mathlib.Tactic.Common

/-!
# Numbered items on their way

Items are numbered in the order in which they come. The first `done` of them have been served. Of
the others some have been handed over to one of two servers, and the rest wait in line behind them.
A server that serves its first item serves the next one due exactly if the other server has no
earlier item.
-/

namespace Handover

/-- The items from `done` to `next` are with the first server, with the second, or in line, each of
them once, and in line behind what the servers have. -/
structure Line (done next : ℕ) (first second rest : List ℕ) : Prop where
  le : done ≤ next
  perm : (first ++ second ++ rest).Perm (List.range' done (next - done))
  firstSorted : (first ++ rest).Pairwise (· < ·)
  secondSorted : (second ++ rest).Pairwise (· < ·)

namespace Line

variable {done next x : ℕ} {first second line rest : List ℕ}

lemma empty (n : ℕ) : Line n n [] [] [] where
  le := le_rfl
  perm := by simp
  firstSorted := .nil
  secondSorted := .nil

/-- What has come and has not been served is on its way. -/
lemma mem_iff (h : Line done next first second rest) :
    x ∈ first ++ second ++ rest ↔ done ≤ x ∧ x < next := by
  rw [h.perm.mem_iff, List.mem_range'_1, Nat.add_sub_cancel' h.le]

/-- Nothing is on its way exactly if all that has come has been served. -/
lemma eq_iff (h : Line done next first second rest) :
    done = next ↔ first = [] ∧ second = [] ∧ rest = [] := by
  have hlength := h.perm.length_eq
  rw [List.length_range'] at hlength
  have hle := h.le
  simp only [List.length_append] at hlength
  simp only [← List.length_eq_zero_iff]
  omega

lemma symm (h : Line done next first second rest) : Line done next second first rest where
  le := h.le
  perm := (List.perm_append_comm.append_right rest).trans h.perm
  firstSorted := h.secondSorted
  secondSorted := h.firstSorted

/-- An item comes. -/
lemma enter (h : Line done next first second rest) :
    Line done (next + 1) first second (rest ++ [next]) := by
  have hlt : ∀ y ∈ first ++ second ++ rest, y < next := fun y hy => (h.mem_iff.mp hy).2
  have hsnoc : ∀ l : List ℕ, l.Pairwise (· < ·) → (∀ y ∈ l, y < next) →
      (l ++ [next]).Pairwise (· < ·) := by
    intro l hl hlast
    refine List.pairwise_append.mpr ⟨hl, List.pairwise_singleton _ _, fun y hy z hz => ?_⟩
    exact List.mem_singleton.mp hz ▸ hlast y hy
  constructor
  · exact h.le.trans (Nat.le_succ _)
  · have hrange : List.range' done (next + 1 - done)
        = List.range' done (next - done) ++ [next] := by
      rw [Nat.succ_sub h.le, List.range'_concat]
      simp [Nat.add_sub_cancel' h.le]
    rw [hrange, ← List.append_assoc]
    exact h.perm.append_right _
  · rw [← List.append_assoc]
    exact hsnoc _ h.firstSorted fun y hy => hlt y (by
      rcases List.mem_append.mp hy with hy | hy <;> simp [hy])
  · rw [← List.append_assoc]
    exact hsnoc _ h.secondSorted fun y hy => hlt y (by
      rcases List.mem_append.mp hy with hy | hy <;> simp [hy])

/-- The first server, which has nothing, takes the front of the line. -/
lemma take (h : Line done next [] second (line ++ rest)) : Line done next line second rest where
  le := h.le
  perm := by
    refine List.Perm.trans ?_ h.perm
    rw [List.nil_append, ← List.append_assoc]
    exact List.perm_append_comm.append_right rest
  firstSorted := h.firstSorted
  secondSorted := by
    refine h.secondSorted.sublist ((List.Sublist.refl _).append ?_)
    exact List.sublist_append_right _ _

/-- The first item of a server is the next one due exactly if the other server has no earlier
one. -/
lemma head_eq_iff (h : Line done next (x :: first) second rest) :
    x = done ↔ ∀ y ∈ second, x < y := by
  have hx : done ≤ x := (h.mem_iff.mp (by simp)).1
  have hsorted : ∀ y ∈ first ++ rest, x < y := (List.pairwise_cons.mp h.firstSorted).1
  have hnodup : (x :: first ++ second ++ rest).Nodup :=
    h.perm.nodup_iff.mpr (List.nodup_range' ..)
  constructor
  · rintro rfl y hy
    have hle : x ≤ y := (h.mem_iff.mp (by simp [hy])).1
    refine lt_of_le_of_ne hle fun heq => ?_
    simp only [List.cons_append, List.nodup_cons] at hnodup
    exact hnodup.1 (by simp [heq, hy])
  · intro hfirst
    have hnext : x < next := (h.mem_iff.mp (by simp)).2
    have hdone : done ∈ x :: first ++ second ++ rest := h.mem_iff.mpr ⟨le_rfl, hx.trans_lt hnext⟩
    simp only [List.cons_append, List.mem_cons, List.mem_append] at hdone
    rcases hdone with heq | (hmem | hmem) | hmem
    · exact heq.symm
    · exact absurd (hsorted done (by simp [hmem])) hx.not_gt
    · exact absurd (hfirst done hmem) hx.not_gt
    · exact absurd (hsorted done (by simp [hmem])) hx.not_gt

/-- A server serves the item that is due. -/
lemma serve (h : Line done next (done :: first) second rest) :
    Line (done + 1) next first second rest := by
  have hlt : done < next := (h.mem_iff.mp (by simp)).2
  constructor
  · exact hlt
  · have hrange : List.range' done (next - done)
        = done :: List.range' (done + 1) (next - (done + 1)) := by
      rw [show next - done = next - (done + 1) + 1 by omega, List.range'_succ]
    have hperm := h.perm
    rw [hrange] at hperm
    exact hperm.cons_inv
  · exact (List.pairwise_cons.mp h.firstSorted).2
  · exact h.secondSorted

/-- The last item in line is the next one due exactly if it is the only one on its way. -/
lemma last_eq_iff (h : Line done next first second (line ++ [x])) :
    x = done ↔ first = [] ∧ second = [] ∧ line = [] := by
  constructor
  · rintro rfl
    have hmin : ∀ y ∈ first ++ second ++ (line ++ [x]), x ≤ y := fun y hy => (h.mem_iff.mp hy).1
    have hfirst : ∀ y ∈ first ++ line, y < x := by
      have hsorted := h.firstSorted
      rw [← List.append_assoc, List.pairwise_append] at hsorted
      exact fun y hy => hsorted.2.2 y hy x (List.mem_singleton_self x)
    have hsecond : ∀ y ∈ second ++ line, y < x := by
      have hsorted := h.secondSorted
      rw [← List.append_assoc, List.pairwise_append] at hsorted
      exact fun y hy => hsorted.2.2 y hy x (List.mem_singleton_self x)
    simp only [List.eq_nil_iff_forall_not_mem]
    refine ⟨fun y hy => ?_, fun y hy => ?_, fun y hy => ?_⟩
    · exact (hfirst y (by simp [hy])).not_ge (hmin y (by simp [hy]))
    · exact (hsecond y (by simp [hy])).not_ge (hmin y (by simp [hy]))
    · exact (hfirst y (by simp [hy])).not_ge (hmin y (by simp [hy]))
  · rintro ⟨rfl, rfl, rfl⟩
    have hdone : done ∈ [x] := by
      refine h.mem_iff.mpr ⟨le_rfl, ?_⟩
      obtain ⟨hle, hlt⟩ := h.mem_iff.mp (List.mem_singleton_self x)
      exact hle.trans_lt hlt
    exact (List.mem_singleton.mp hdone).symm

/-- The only item on its way is served. -/
lemma serve_last (h : Line done next [] [] [done]) : next = done + 1 := by
  have hlength := h.perm.length_eq
  rw [List.length_range'] at hlength
  simp only [List.nil_append, List.length_singleton] at hlength
  omega

end Line

end Handover
