import Mathlib.Algebra.BigOperators.Group.List.Basic
import Mathlib.Algebra.GroupWithZero.Nat
import Mathlib.Algebra.Order.BigOperators.Group.List
import Mathlib.Algebra.Order.Group.Nat
import Mathlib.Data.List.Basic
import Mathlib.Tactic.Common

/-!
# Drawing from the front

A quantity is drawn from the elements of a list, one after the other. Each element holds an amount.
It is gone once it is used up, and only the last one that is drawn from can be left with less.
-/

namespace Greedy

/-- Elements that hold an amount, of which some can be taken out. -/
structure Stock (α : Type*) where
  amount : α → ℕ
  reduce : ℕ → α → α
  amount_reduce : ∀ q a, amount (reduce q a) = amount a - q
  reduce_zero : ∀ a, reduce 0 a = a
  reduce_reduce : ∀ q q' a, reduce q' (reduce q a) = reduce (q + q') a

/-- What was taken from which element, the elements with what is left of them, and the quantity
that was missing. -/
structure Drawn (α : Type*) where
  pieces : List (α × ℕ)
  left : List α
  missing : ℕ

namespace Stock

variable {α : Type*} (S : Stock α)

/-- Draw a quantity from a list. -/
def draw (S : Stock α) : ℕ → List α → Drawn α
  | q, [] => ⟨[], [], q⟩
  | q, a :: as =>
    if q = 0 then ⟨[], a :: as, 0⟩
    else if S.amount a ≤ q then
      ⟨(a, S.amount a) :: (S.draw (q - S.amount a) as).pieces,
        (S.draw (q - S.amount a) as).left, (S.draw (q - S.amount a) as).missing⟩
    else ⟨[(a, q)], S.reduce q a :: as, 0⟩

/-- The amount in a list. -/
def total (as : List α) : ℕ := (as.map S.amount).sum

variable {S} {q q' : ℕ} {a : α} {as bs : List α}

@[simp] lemma total_nil : S.total [] = 0 := rfl

@[simp] lemma total_cons : S.total (a :: as) = S.amount a + S.total as := rfl

@[simp] lemma total_append : S.total (as ++ bs) = S.total as + S.total bs := by simp [total]

@[simp] lemma draw_nil : S.draw q [] = ⟨[], [], q⟩ := rfl

@[simp] lemma draw_zero (as : List α) : S.draw 0 as = ⟨[], as, 0⟩ := by
  cases as <;> simp [draw]

lemma draw_cons_le (hq : q ≠ 0) (h : S.amount a ≤ q) : S.draw q (a :: as)
    = ⟨(a, S.amount a) :: (S.draw (q - S.amount a) as).pieces, (S.draw (q - S.amount a) as).left,
      (S.draw (q - S.amount a) as).missing⟩ := by
  rw [draw, if_neg hq, if_pos h]

lemma draw_cons_gt (hq : q ≠ 0) (h : ¬S.amount a ≤ q) :
    S.draw q (a :: as) = ⟨[(a, q)], S.reduce q a :: as, 0⟩ := by
  rw [draw, if_neg hq, if_neg h]

/-! ### Amounts -/

lemma missing_draw (q : ℕ) (as : List α) : (S.draw q as).missing = q - S.total as := by
  fun_induction S.draw q as with
  | case1 q => rfl
  | case2 a as => simp
  | case3 q a as hq h ih => rw [ih, total_cons, Nat.sub_sub]
  | case4 q a as hq h =>
    rw [total_cons, Nat.sub_eq_zero_of_le (by omega)]

lemma total_left (q : ℕ) (as : List α) : S.total (S.draw q as).left = S.total as - q := by
  fun_induction S.draw q as with
  | case1 q => simp
  | case2 a as => rfl
  | case3 q a as hq h ih =>
    rw [ih, total_cons]
    omega
  | case4 q a as hq h =>
    rw [total_cons, S.amount_reduce, total_cons]
    omega

/-- What was drawn is what is gone. -/
lemma sum_pieces (q : ℕ) (as : List α) :
    ((S.draw q as).pieces.map Prod.snd).sum = min q (S.total as) := by
  fun_induction S.draw q as with
  | case1 q => simp
  | case2 a as => simp
  | case3 q a as hq h ih =>
    rw [List.map_cons, List.sum_cons, ih, total_cons]
    omega
  | case4 q a as hq h =>
    rw [total_cons, List.map_cons, List.map_nil, List.sum_singleton]
    omega

/-- What is left are elements of the list, perhaps reduced. -/
lemma left_forall {P : α → Prop} (hreduce : ∀ q a, P a → P (S.reduce q a)) (q : ℕ)
    (h : ∀ a ∈ as, P a) : ∀ a ∈ (S.draw q as).left, P a := by
  fun_induction S.draw q as with
  | case1 q => exact h
  | case2 a as => exact h
  | case3 q a as hq hle ih => exact ih fun b hb => h b (by simp [hb])
  | case4 q a as hq hgt =>
    intro b hb
    rcases List.mem_cons.mp hb with rfl | hb
    · exact hreduce q a (h a (by simp))
    · exact h b (by simp [hb])

/-- Of the elements of an initial part of the list, which `p` picks out, as much is drawn as there
is. -/
theorem total_filter_left {r : α → α → Prop} {p : α → Bool}
    (hp : ∀ a b, r a b → p b = true → p a = true) (hreduce : ∀ q a, p (S.reduce q a) = p a)
    (q : ℕ) (h : as.Pairwise r) :
    S.total ((S.draw q as).left.filter p) = S.total (as.filter p) - q := by
  have hnone : ∀ bs : List α, (∀ b ∈ bs, p b = false) → S.total (bs.filter p) = 0 := by
    intro bs hbs
    rw [List.filter_eq_nil_iff.mpr fun b hb => by simp [hbs b hb], total_nil]
  fun_induction S.draw q as with
  | case1 q => simp
  | case2 a as => rfl
  | case3 q a as hq hle ih =>
    rw [ih h.of_cons]
    cases ha : p a with
    | false =>
      have has : ∀ b ∈ as, p b = false := fun b hb => by
        by_contra hpb
        simp [hp a b (List.rel_of_pairwise_cons h hb) (by simpa using hpb)] at ha
      rw [List.filter_cons_of_neg (by simp [ha]), hnone as has, Nat.zero_sub, Nat.zero_sub]
    | true =>
      rw [List.filter_cons_of_pos ha, total_cons]
      omega
  | case4 q a as hq hgt =>
    cases ha : p a with
    | false =>
      have has : ∀ b ∈ as, p b = false := fun b hb => by
        by_contra hpb
        simp [hp a b (List.rel_of_pairwise_cons h hb) (by simpa using hpb)] at ha
      rw [List.filter_cons_of_neg (by simp [hreduce, ha]),
        List.filter_cons_of_neg (by simp [ha]), hnone as has, Nat.zero_sub]
    | true =>
      rw [List.filter_cons_of_pos (by rw [hreduce, ha]), List.filter_cons_of_pos ha, total_cons,
        total_cons, S.amount_reduce]
      omega

/-! ### Drawing in parts -/

/-- Drawing from one list and then from another. -/
lemma draw_append (q : ℕ) (as bs : List α) : S.draw q (as ++ bs)
    = ⟨(S.draw q as).pieces ++ (S.draw (q - S.total as) bs).pieces,
      (S.draw q as).left ++ (S.draw (q - S.total as) bs).left,
      (S.draw (q - S.total as) bs).missing⟩ := by
  fun_induction S.draw q as with
  | case1 q => simp
  | case2 a as => simp
  | case3 q a as hq h ih =>
    rw [List.cons_append, draw_cons_le hq h, ih, total_cons, Nat.sub_sub]
    rfl
  | case4 q a as hq h =>
    have hz : q - S.total (a :: as) = 0 := by
      rw [total_cons]
      omega
    rw [List.cons_append, draw_cons_gt hq h, hz]
    simp

/-- Drawing again from what is left. -/
lemma left_draw_left (q q' : ℕ) (as : List α) :
    (S.draw q' (S.draw q as).left).left = (S.draw (q + q') as).left := by
  fun_induction S.draw q as with
  | case1 q => rfl
  | case2 a as => rw [Nat.zero_add]
  | case3 q a as hq h ih =>
    have hsum : q + q' - S.amount a = q - S.amount a + q' := by omega
    rw [ih, draw_cons_le (by omega) (by omega), hsum]
  | case4 q a as hq h =>
    rcases eq_or_ne q' 0 with rfl | hq'
    · rw [draw_zero, Nat.add_zero, draw_cons_gt hq h]
    · by_cases h' : S.amount (S.reduce q a) ≤ q'
      · rw [draw_cons_le hq' h', S.amount_reduce]
        rw [S.amount_reduce] at h'
        have hsum : q + q' - S.amount a = q' - (S.amount a - q) := by omega
        rw [draw_cons_le (by omega) (by omega), hsum]
      · rw [draw_cons_gt hq' h', S.reduce_reduce]
        rw [S.amount_reduce] at h'
        rw [draw_cons_gt (by omega) (by omega)]

/-- Elements without any amount. -/
lemma filter_eq_nil_of_total (h : S.total as = 0) :
    as.filter (fun a => 0 < S.amount a) = [] := by
  rw [total, List.sum_eq_zero_iff] at h
  apply List.filter_eq_nil_iff.mpr
  intro a ha
  simp [h _ (List.mem_map_of_mem ha)]

/-- Up to elements without any amount, drawing more than there is makes no difference. -/
lemma filter_left_min (q : ℕ) (as : List α) :
    (S.draw (min q (S.total as)) as).left.filter (fun a => 0 < S.amount a)
      = (S.draw q as).left.filter fun a => 0 < S.amount a := by
  rcases le_total q (S.total as) with h | h
  · rw [min_eq_left h]
  · rw [min_eq_right h, filter_eq_nil_of_total (by rw [total_left, Nat.sub_self]),
      filter_eq_nil_of_total (by rw [total_left, Nat.sub_eq_zero_of_le h])]

/-! ### The order of the pieces -/

/-- The pieces come from an initial part of the list. All of its elements are used up but perhaps
the last one, and those behind it are not touched. -/
theorem draw_split (q : ℕ) (as : List α) : ∃ used rest, as = used ++ rest ∧
    (S.draw q as).pieces.map Prod.fst = used ∧
    ((S.draw q as).left = rest ∨ ∃ full last q', used = full ++ [last] ∧
      (S.draw q as).left = S.reduce q' last :: rest) := by
  fun_induction S.draw q as with
  | case1 q => exact ⟨[], [], rfl, rfl, Or.inl rfl⟩
  | case2 a as => exact ⟨[], a :: as, rfl, rfl, Or.inl rfl⟩
  | case3 q a as hq h ih =>
    obtain ⟨used, rest, hsplit, hpieces, hleft⟩ := ih
    refine ⟨a :: used, rest, by rw [hsplit, List.cons_append], by simp [hpieces], ?_⟩
    rcases hleft with hleft | ⟨full, last, q', hused, hleft⟩
    · exact Or.inl hleft
    · exact Or.inr ⟨a :: full, last, q', by rw [hused, List.cons_append], hleft⟩
  | case4 q a as hq h => exact ⟨[a], as, rfl, rfl, Or.inr ⟨[], a, q, rfl, rfl⟩⟩

/-! ### Filling one list from another -/

/-- Fill each element of a list from the elements of another: what is left of both. -/
def fill (S : Stock α) : List α → List α → List α × List α
  | [], bs => ([], bs)
  | a :: as, bs =>
    let d := S.draw (S.amount a) bs
    let r := S.fill as d.left
    ((if d.missing = 0 then [] else [S.reduce (S.amount a - d.missing) a]) ++ r.1, r.2)

/-- What is left of the list that the others are filled from. -/
lemma fill_snd (as bs : List α) : (S.fill as bs).2 = (S.draw (S.total as) bs).left := by
  induction as generalizing bs with
  | nil => simp [fill]
  | cons a as ih => rw [fill, ih, left_draw_left, total_cons]

/-- What is left of the list that is filled. -/
lemma fill_fst (as bs : List α) :
    (S.fill as bs).1.filter (fun a => 0 < S.amount a)
      = (S.draw (S.total bs) as).left.filter fun a => 0 < S.amount a := by
  induction as generalizing bs with
  | nil => simp [fill]
  | cons a as ih =>
    have hrest := ih (S.draw (S.amount a) bs).left
    rw [total_left] at hrest
    rw [fill, missing_draw, List.filter_append, hrest]
    rcases eq_or_ne (S.total bs) 0 with hbs | hbs
    · rw [hbs, Nat.sub_zero, Nat.zero_sub, draw_zero, draw_zero]
      by_cases ha : S.amount a = 0
      · rw [if_pos ha, List.filter_cons_of_neg (by simp [ha])]
        rfl
      · rw [if_neg ha, Nat.sub_self, S.reduce_zero, ← List.filter_append]
        rfl
    · by_cases h : S.amount a ≤ S.total bs
      · rw [if_pos (Nat.sub_eq_zero_of_le h), draw_cons_le hbs h, List.filter_nil, List.nil_append]
      · have hz : S.total bs - S.amount a = 0 := by omega
        have hq : S.amount a - (S.amount a - S.total bs) = S.total bs := by omega
        rw [if_neg (by omega), draw_cons_gt hbs h, hz, hq, draw_zero, ← List.filter_append]
        rfl

/-! ### Matching two lists off -/

section

variable {κ : Type*} (key : α → κ)

/-- Who is matched with whom when the elements of two lists are matched off, front to front. -/
def cross (S : Stock α) (key : α → κ) : List α → List α → List (κ × κ × ℕ)
  | [], _ => []
  | _ :: _, [] => []
  | a :: as, b :: bs =>
    if S.amount a = 0 then S.cross key as (b :: bs)
    else if S.amount b ≤ S.amount a then
      (key a, key b, S.amount b) :: S.cross key (S.reduce (S.amount b) a :: as) bs
    else (key a, key b, S.amount a) :: S.cross key as (S.reduce (S.amount a) b :: bs)
termination_by as bs => as.length + bs.length

variable {key}

@[simp] lemma cross_nil_left (bs : List α) : S.cross key [] bs = [] := by rw [cross]

@[simp] lemma cross_nil_right (as : List α) : S.cross key as [] = [] := by
  cases as <;> rw [cross]

/-- Matching off is filling the elements of one list in turn. -/
lemma cross_cons (hkey : ∀ q a, key (S.reduce q a) = key a) (a : α) (as bs : List α) :
    S.cross key (a :: as) bs =
      ((S.draw (S.amount a) bs).pieces.map fun piece => (key a, key piece.1, piece.2))
        ++ S.cross key as (S.draw (S.amount a) bs).left := by
  induction bs generalizing a with
  | nil => simp
  | cons b bs ih =>
    rw [cross]
    by_cases ha : S.amount a = 0
    · rw [if_pos ha, ha, draw_zero]
      rfl
    · rw [if_neg ha]
      by_cases hle : S.amount b ≤ S.amount a
      · rw [if_pos hle, draw_cons_le ha hle, ih, S.amount_reduce, hkey]
        rfl
      · rw [if_neg hle, draw_cons_gt ha hle]
        rfl

lemma cross_cons_append (hkey : ∀ q a, key (S.reduce q a) = key a) (a : α) (as bs : List α) :
    S.cross key (a :: as) bs
      = S.cross key [a] bs ++ S.cross key as (S.draw (S.amount a) bs).left := by
  rw [cross_cons hkey, cross_cons hkey a [], cross_nil_left, List.append_nil]

/-- The keys that are matched. -/
lemma mem_of_mem_cross (hkey : ∀ q a, key (S.reduce q a) = key a) {i j : κ} {q : ℕ}
    (h : (i, j, q) ∈ S.cross key as bs) : i ∈ as.map key ∧ j ∈ bs.map key := by
  fun_induction S.cross key as bs with
  | case1 bs => exact absurd h List.not_mem_nil
  | case2 a as => exact absurd h List.not_mem_nil
  | case3 a as b bs ha ih => exact (ih h).imp (List.mem_cons_of_mem _) id
  | case4 a as b bs ha hle ih =>
    rcases List.mem_cons.mp h with h | h
    · cases h
      exact ⟨List.mem_cons_self, List.mem_cons_self⟩
    · have hmem := ih h
      rw [List.map_cons, hkey] at hmem
      exact hmem.imp id (List.mem_cons_of_mem _)
  | case5 a as b bs ha hle ih =>
    rcases List.mem_cons.mp h with h | h
    · cases h
      exact ⟨List.mem_cons_self, List.mem_cons_self⟩
    · have hmem := ih h
      rw [List.map_cons, hkey] at hmem
      exact hmem.imp (List.mem_cons_of_mem _) id

/-- As much is matched as the shorter side has. -/
lemma sum_cross (hkey : ∀ q a, key (S.reduce q a) = key a) (as bs : List α) :
    ((S.cross key as bs).map fun m => m.2.2).sum = min (S.total as) (S.total bs) := by
  induction as generalizing bs with
  | nil => simp
  | cons a as ih =>
    rw [cross_cons hkey, List.map_append, List.sum_append, ih, total_left, total_cons,
      List.map_map]
    have hpieces := sum_pieces (S := S) (S.amount a) bs
    simp only [Function.comp_def] at hpieces ⊢
    rw [show (fun x : α × ℕ => x.2) = Prod.snd from rfl, hpieces]
    omega

lemma not_front_head {k x : κ} {ks : List κ} (hk : k ∉ ks) : ¬[x, k].Sublist (k :: ks) := by
  intro h
  rcases List.sublist_cons_iff.mp h with h | ⟨r, heq, h⟩
  · exact hk (h.subset (by simp))
  · cases heq
    exact hk (h.subset (by simp))

lemma front_of_cons {k x i : κ} {ks : List κ} (hne : x ≠ k) (h : [x, i].Sublist (k :: ks)) :
    [x, i].Sublist ks := by
  rcases List.sublist_cons_iff.mp h with h | ⟨r, heq, -⟩
  · exact h
  · cases heq
    exact absurd rfl hne

section

variable {c c' : α} {cs : List α} {j : κ} (t t' : κ → ℕ)

lemma key_ne (hc : key c ∉ cs.map key) (hc' : c' ∈ cs) : key c ≠ key c' :=
  fun heq => hc (heq ▸ List.mem_map_of_mem hc')

/-- Nothing stands in front of the first element. -/
lemma front_head (hnodup : ((c :: cs).map key).Nodup) :
    ∀ c' ∈ c :: cs, [key c', key c].Sublist ((c :: cs).map key) → t (key c') = S.amount c' :=
  fun _ _ hfront => absurd hfront (not_front_head (List.nodup_cons.mp hnodup).1)

/-- The first element is used up, and the others are as in the rest of the list. -/
lemma front_used (hc : key c ∉ cs.map key) (hfirst : t (key c) = S.amount c)
    (hothers : ∀ c' ∈ cs, t (key c') = t' (key c'))
    (h : ∀ c' ∈ cs, [key c', j].Sublist (cs.map key) → t' (key c') = S.amount c') :
    ∀ c' ∈ c :: cs, [key c', j].Sublist ((c :: cs).map key) → t (key c') = S.amount c' := by
  intro c' hc' hfront
  rcases List.mem_cons.mp hc' with rfl | hmem
  · exact hfirst
  · rw [hothers c' hmem]
    exact h c' hmem (front_of_cons (key_ne hc hmem).symm hfront)

/-- The first element is reduced, and the others are as in the list with the reduced one. -/
lemma front_reduced (hkey : ∀ q a, key (S.reduce q a) = key a) {q : ℕ} (hq : q ≤ S.amount c)
    (hfirst : t (key c) = q + t' (key c)) (hothers : ∀ c' ∈ cs, t (key c') = t' (key c'))
    (h : ∀ c' ∈ S.reduce q c :: cs, [key c', j].Sublist ((S.reduce q c :: cs).map key) →
      t' (key c') = S.amount c') :
    ∀ c' ∈ c :: cs, [key c', j].Sublist ((c :: cs).map key) → t (key c') = S.amount c' := by
  have hsame : (S.reduce q c :: cs).map key = (c :: cs).map key := by
    rw [List.map_cons, List.map_cons, hkey]
  intro c' hc' hfront
  rcases List.mem_cons.mp hc' with rfl | hmem
  · have htaken := h (S.reduce q c') List.mem_cons_self (by rwa [hsame, hkey])
    rw [hkey, S.amount_reduce] at htaken
    rw [hfirst, htaken]
    omega
  · rw [hothers c' hmem]
    exact h c' (List.mem_cons_of_mem _ hmem) (hsame ▸ hfront)

end

variable [DecidableEq κ]

/-- What is matched under a key. -/
def taken (k : κ) (ms : List (κ × κ × ℕ)) : ℕ :=
  (ms.map fun m => if m.1 = k ∨ m.2.1 = k then m.2.2 else 0).sum

@[simp] lemma taken_nil (k : κ) : taken k [] = 0 := rfl

@[simp] lemma taken_cons (k i j : κ) (q : ℕ) (ms : List (κ × κ × ℕ)) :
    taken k ((i, j, q) :: ms) = (if i = k ∨ j = k then q else 0) + taken k ms := rfl

lemma taken_cons_of_ne {k i j : κ} (hi : i ≠ k) (hj : j ≠ k) (q : ℕ) (ms : List (κ × κ × ℕ)) :
    taken k ((i, j, q) :: ms) = taken k ms := by
  rw [taken_cons, if_neg (not_or.mpr ⟨hi, hj⟩), Nat.zero_add]

lemma taken_eq_zero {k : κ} {ms : List (κ × κ × ℕ)}
    (h : ∀ i j q, (i, j, q) ∈ ms → i ≠ k ∧ j ≠ k) : taken k ms = 0 := by
  refine List.sum_eq_zero fun n hn => ?_
  obtain ⟨⟨i, j, q⟩, hm, rfl⟩ := List.mem_map.mp hn
  exact if_neg (by simp [h i j q hm])

/-- Nothing is matched under a key of neither list. -/
lemma taken_prefix (hkey : ∀ q a, key (S.reduce q a) = key a) {pre post : List (κ × κ × ℕ)} {k : κ}
    (h : S.cross key as bs = pre ++ post) (has : k ∉ as.map key) (hbs : k ∉ bs.map key) :
    taken k pre = 0 := by
  refine taken_eq_zero fun i j q hm => ?_
  obtain ⟨hi, hj⟩ := mem_of_mem_cross hkey (h ▸ List.mem_append_left _ hm)
  exact ⟨fun hik => has (hik ▸ hi), fun hjk => hbs (hjk ▸ hj)⟩

/-- When an element is matched, all those in front of it are used up. -/
theorem cross_fair (hkey : ∀ q a, key (S.reduce q a) = key a) (has : (as.map key).Nodup)
    (hbs : (bs.map key).Nodup) (hdisj : (as.map key).Disjoint (bs.map key))
    {pre post : List (κ × κ × ℕ)} {i j : κ} (h : S.cross key as bs = pre ++ (i, j, q) :: post) :
    (∀ a ∈ as, [key a, i].Sublist (as.map key) → taken (key a) pre = S.amount a) ∧
      ∀ b ∈ bs, [key b, j].Sublist (bs.map key) → taken (key b) pre = S.amount b := by
  fun_induction S.cross key as bs generalizing pre with
  | case1 bs => simp at h
  | case2 a as => simp at h
  | case3 a as b bs ha ih =>
    rw [List.map_cons, List.nodup_cons] at has
    rw [List.map_cons, List.disjoint_cons_left] at hdisj
    obtain ⟨hasks, hbids⟩ := ih has.2 hbs hdisj.2 h
    have hzero : taken (key a) pre = S.amount a := by rw [ha, taken_prefix hkey h has.1 hdisj.1]
    exact ⟨front_used (fun k => taken k pre) (fun k => taken k pre) has.1 hzero (fun _ _ => rfl)
      hasks, hbids⟩
  | case4 a as b bs ha hle ih =>
    -- `b` is used up
    have hsame : (S.reduce (S.amount b) a :: as).map key = (a :: as).map key := by
      rw [List.map_cons, List.map_cons, hkey]
    cases pre with
    | nil =>
      cases h
      exact ⟨front_head (fun k => taken k []) has, front_head (fun k => taken k []) hbs⟩
    | cons p pre =>
      rw [List.cons_append, List.cons.injEq] at h
      obtain ⟨rfl, h⟩ := h
      rw [List.map_cons, List.nodup_cons] at hbs
      rw [List.map_cons (l := bs), List.disjoint_cons_right] at hdisj
      obtain ⟨hasks, hbids⟩ := ih (hsame ▸ has) hbs.2 (hsame ▸ hdisj.2) h
      rw [List.map_cons, List.nodup_cons] at has
      have hzero := taken_prefix hkey h (hsame ▸ hdisj.1) hbs.1
      have hb : key b ∉ as.map key := fun hmem => hdisj.1 (List.mem_cons_of_mem _ hmem)
      have ha' : key a ∉ bs.map key := hdisj.2 List.mem_cons_self
      refine ⟨front_reduced (fun k => taken k _) (fun k => taken k pre) hkey hle ?_ ?_ hasks,
        front_used (fun k => taken k _) (fun k => taken k pre) hbs.1 ?_ ?_ hbids⟩
      · rw [taken_cons, if_pos (Or.inl rfl)]
      · exact fun a' hmem => taken_cons_of_ne (key_ne has.1 hmem) (key_ne hb hmem) _ _
      · rw [taken_cons, if_pos (Or.inr rfl), hzero, Nat.add_zero]
      · exact fun b' hmem => taken_cons_of_ne (key_ne ha' hmem) (key_ne hbs.1 hmem) _ _
  | case5 a as b bs ha hle ih =>
    -- `a` is used up
    have hsame : (S.reduce (S.amount a) b :: bs).map key = (b :: bs).map key := by
      rw [List.map_cons, List.map_cons, hkey]
    cases pre with
    | nil =>
      cases h
      exact ⟨front_head (fun k => taken k []) has, front_head (fun k => taken k []) hbs⟩
    | cons p pre =>
      rw [List.cons_append, List.cons.injEq] at h
      obtain ⟨rfl, h⟩ := h
      rw [List.map_cons, List.nodup_cons] at has
      rw [List.map_cons (l := as), List.disjoint_cons_left] at hdisj
      obtain ⟨hasks, hbids⟩ := ih has.2 (hsame ▸ hbs) (hsame ▸ hdisj.2) h
      rw [List.map_cons, List.nodup_cons] at hbs
      have hzero := taken_prefix hkey h has.1 (hsame ▸ hdisj.1)
      have hb : key b ∉ as.map key := fun hmem => hdisj.2 hmem List.mem_cons_self
      have ha' : key a ∉ bs.map key := fun hmem => hdisj.1 (List.mem_cons_of_mem _ hmem)
      refine ⟨front_used (fun k => taken k _) (fun k => taken k pre) has.1 ?_ ?_ hasks,
        front_reduced (fun k => taken k _) (fun k => taken k pre) hkey (by omega) ?_ ?_ hbids⟩
      · rw [taken_cons, if_pos (Or.inl rfl), hzero, Nat.add_zero]
      · exact fun a' hmem => taken_cons_of_ne (key_ne has.1 hmem) (key_ne hb hmem) _ _
      · rw [taken_cons, if_pos (Or.inr rfl)]
      · exact fun b' hmem => taken_cons_of_ne (key_ne ha' hmem) (key_ne hbs.1 hmem) _ _

end

end Stock

end Greedy
