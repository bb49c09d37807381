import Mathlib.Data.List.Forall2
import Mathlib.Data.List.Sort
import Mathlib.Order.Defs.Unbundled

/-!
# Sorted lists

Appending an element to a sorted list and sorting again with a stable sort inserts the element
behind all elements that may stand before it. Of a sorted list, a filter that is closed downwards
keeps an initial part.
-/

namespace Sorted

variable {α β κ : Type*}

/-- Insert behind the leading elements that satisfy `p`. -/
def insertBehind (p : α → Bool) (x : α) : List α → List α
  | [] => [x]
  | a :: as => if p a then a :: insertBehind p x as else x :: a :: as

section

variable {p : α → Bool} {x a : α} {as bs : List α}

@[simp] lemma insertBehind_nil : insertBehind p x [] = [x] := rfl

lemma insertBehind_cons_pos (h : p a = true) :
    insertBehind p x (a :: as) = a :: insertBehind p x as := if_pos h

lemma insertBehind_cons_neg (h : p a = false) :
    insertBehind p x (a :: as) = x :: a :: as := by simp [insertBehind, h]

lemma insertBehind_append (h : ∀ a ∈ as, p a = true) :
    insertBehind p x (as ++ bs) = as ++ insertBehind p x bs := by
  induction as with
  | nil => rfl
  | cons a as ih =>
    rw [List.cons_append, insertBehind_cons_pos (h a (by simp)), ih fun a ha => h a (by simp [ha]),
      List.cons_append]

/-- Nothing that comes after the first element that fails matters. -/
lemma insertBehind_of_forall (h : ∀ a ∈ as, p a = false) : insertBehind p x as = x :: as := by
  cases as with
  | nil => rfl
  | cons a as => exact insertBehind_cons_neg (h a (by simp))

/-- A filter that the new element does not pass sees nothing of it. -/
lemma filter_insertBehind {q : α → Bool} (hx : q x = false) :
    (insertBehind p x as).filter q = as.filter q := by
  induction as with
  | nil => exact List.filter_cons_of_neg (by simp [hx])
  | cons a as ih =>
    cases hp : p a with
    | true => rw [insertBehind_cons_pos hp, List.filter_cons, List.filter_cons, ih]
    | false => rw [insertBehind_cons_neg hp, List.filter_cons_of_neg (by simp [hx])]

end

/-- Inserting into two lists that are alike. -/
lemma forall₂_insertBehind {R : α → β → Prop} {p : α → Bool} {q : β → Bool} {x : α} {y : β}
    {as : List α} {bs : List β} (hpq : ∀ a b, R a b → p a = q b) (hxy : R x y)
    (h : List.Forall₂ R as bs) :
    List.Forall₂ R (insertBehind p x as) (insertBehind q y bs) := by
  induction h with
  | nil => exact .cons hxy .nil
  | @cons a b as bs hab hrest ih =>
    cases hp : p a with
    | true =>
      rw [insertBehind_cons_pos hp, insertBehind_cons_pos (hpq a b hab ▸ hp)]
      exact .cons hab ih
    | false =>
      rw [insertBehind_cons_neg hp, insertBehind_cons_neg (hpq a b hab ▸ hp)]
      exact .cons hxy (.cons hab hrest)

/-- A stable sort of a sorted list with one more element at its end. -/
theorem insertionSort_snoc {r : α → α → Prop} [DecidableRel r] [IsTrans α r] {as : List α}
    (h : as.Pairwise r) (x : α) :
    (as ++ [x]).insertionSort r = insertBehind (fun a => r a x) x as := by
  set p : α → Bool := fun a => r a x with hp
  induction as with
  | nil => rfl
  | cons a as ih =>
    have ha : ∀ b ∈ as, r a b := fun b hb => List.rel_of_pairwise_cons h hb
    rw [List.cons_append, List.insertionSort_cons, ih h.of_cons]
    by_cases hx : r a x
    · rw [insertBehind_cons_pos (show p a = true from decide_eq_true hx)]
      cases as with
      | nil => exact List.orderedInsert_cons_of_le r _ hx
      | cons b as =>
        by_cases hb : r b x
        · rw [insertBehind_cons_pos (show p b = true from decide_eq_true hb)]
          exact List.orderedInsert_cons_of_le r _ (ha b (by simp))
        · rw [insertBehind_cons_neg (show p b = false from decide_eq_false hb)]
          exact List.orderedInsert_cons_of_le r _ hx
    · have hall : ∀ b ∈ as, p b = false := fun b hb =>
        decide_eq_false fun hbx => hx (trans_of r (ha b hb) hbx)
      rw [insertBehind_of_forall hall,
        insertBehind_cons_neg (show p a = false from decide_eq_false hx),
        List.orderedInsert_of_not_le r _ hx]
      cases as with
      | nil => rfl
      | cons b as => rw [List.orderedInsert_cons_of_le r _ (ha b (by simp))]

/-- A stable sort leaves elements that may stand either way as they stood. -/
theorem filter_insertionSort {r : α → α → Prop} [DecidableRel r] {p : α → Bool} {as : List α}
    (h : ∀ a b, p a = true → p b = true → r a b) :
    (as.insertionSort r).filter p = as.filter p := by
  have hpairwise : (as.filter p).Pairwise r := by
    refine List.Pairwise.imp_of_mem (R := fun _ _ => True) ?_ (List.pairwise_of_forall (by simp))
    intro a b ha hb _
    exact h a b (List.mem_filter.mp ha).2 (List.mem_filter.mp hb).2
  have hsub := (List.sublist_insertionSort hpairwise List.filter_sublist).filter p
  simp only [List.filter_filter, Bool.and_self] at hsub
  exact (hsub.eq_of_length ((List.perm_insertionSort r as).filter p).length_eq.symm).symm

/-- A filter that is closed downwards. -/
theorem filter_eq_takeWhile {r : α → α → Prop} {p : α → Bool} {as : List α}
    (hp : ∀ a b, r a b → p b = true → p a = true) (h : as.Pairwise r) :
    as.filter p = as.takeWhile p := by
  induction as with
  | nil => rfl
  | cons a as ih =>
    cases ha : p a with
    | true => rw [List.filter_cons_of_pos ha, List.takeWhile_cons_of_pos ha, ih h.of_cons]
    | false =>
      rw [List.takeWhile_cons_of_neg (by simp [ha]), List.filter_eq_nil_iff]
      intro b hb hpb
      rcases List.mem_cons.mp hb with rfl | hb
      · simp [ha] at hpb
      · simp [hp a b (List.rel_of_pairwise_cons h hb) hpb] at ha

/-- What such a filter leaves out is the rest. -/
theorem filter_not_eq_dropWhile {r : α → α → Prop} {p : α → Bool} {as : List α}
    (hp : ∀ a b, r a b → p b = true → p a = true) (h : as.Pairwise r) :
    as.filter (fun a => !p a) = as.dropWhile p := by
  induction as with
  | nil => rfl
  | cons a as ih =>
    cases ha : p a with
    | true =>
      rw [List.filter_cons_of_neg (by simp [ha]), List.dropWhile_cons_of_pos ha, ih h.of_cons]
    | false =>
      rw [List.dropWhile_cons_of_neg (by simp [ha]), List.filter_eq_self]
      intro b hb
      cases hpb : p b with
      | false => rfl
      | true =>
        rcases List.mem_cons.mp hb with rfl | hb
        · simp [ha] at hpb
        · simp [hp a b (List.rel_of_pairwise_cons h hb) hpb] at ha

/-- Elements that a filter lets through, followed by elements that it does not. -/
lemma filter_append_parts {p : α → Bool} {as bs : List α} (has : ∀ a ∈ as, p a = true)
    (hbs : ∀ b ∈ bs, p b = false) :
    (as ++ bs).filter p = as ∧ (as ++ bs).filter (fun a => !p a) = bs := by
  constructor
  · rw [List.filter_append, List.filter_eq_self.mpr has,
      List.filter_eq_nil_iff.mpr fun b hb => by simp [hbs b hb], List.append_nil]
  · rw [List.filter_append, List.filter_eq_nil_iff.mpr fun a ha => by simp [has a ha],
      List.filter_eq_self.mpr fun b hb => by simp [hbs b hb], List.nil_append]

/-- Of two elements of a list, the one that comes first in the order stands first. -/
lemma pair_sublist {r : α → α → Prop} {as : List α} {a b : α} (hr : ∀ a b, r a b → ¬r b a)
    (h : as.Pairwise r) (ha : a ∈ as) (hb : b ∈ as) (hab : r a b) : [a, b].Sublist as := by
  induction as with
  | nil => cases ha
  | cons c as ih =>
    rcases List.mem_cons.mp ha with rfl | has
    · rcases List.mem_cons.mp hb with rfl | hbs
      · exact absurd hab (hr _ _ hab)
      · exact (List.singleton_sublist.mpr hbs).cons_cons _
    · rcases List.mem_cons.mp hb with rfl | hbs
      · exact absurd (List.rel_of_pairwise_cons h has) (hr _ _ hab)
      · exact (ih h.of_cons has hbs).cons _

/-- Where keys do not repeat, erasing a key is a filter. -/
lemma eraseP_eq_filter [DecidableEq κ] {f : α → κ} {as : List α} (h : (as.map f).Nodup) (k : κ) :
    as.eraseP (fun a => f a = k) = as.filter fun a => f a ≠ k := by
  induction as with
  | nil => rfl
  | cons a as ih =>
    rw [List.map_cons, List.nodup_cons] at h
    by_cases hk : f a = k
    · have hrest : ∀ b ∈ as, f b ≠ k := by
        rintro b hb rfl
        exact h.1 (hk ▸ List.mem_map_of_mem hb)
      rw [List.eraseP_cons_of_pos (by simpa using hk), List.filter_cons_of_neg (by simpa using hk),
        List.filter_eq_self.mpr fun b hb => by simpa using hrest b hb]
    · rw [List.eraseP_cons_of_neg (by simpa using hk), List.filter_cons_of_pos (by simpa using hk),
        ih h.2]

end Sorted
