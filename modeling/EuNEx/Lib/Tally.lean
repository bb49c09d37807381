import Mathlib.Algebra.BigOperators.Group.List.Basic
import Mathlib.Data.List.Basic
import Mathlib.Tactic.Common

/-!
# Tallies

Accounts to which the entries of a journal are posted. A balance is the sum of what each entry
posts to the account, so it does not depend on the order of the journal; and where every entry
posts to one account what it takes from another, the balances of all accounts sum to nothing.
-/

namespace Tally

variable {ι α M : Type*} [AddCommMonoid M]

/-- What the entries of a journal post to an account. -/
def balance (post : ι → M) (entries : List ι) : M := (entries.map post).sum

section

variable {post : ι → M} {entries : List ι}

@[simp] lemma balance_nil : balance post [] = 0 := rfl

lemma balance_snoc (entries : List ι) (i : ι) :
    balance post (entries ++ [i]) = balance post entries + post i := by
  simp [balance]

lemma balance_append (entries entries' : List ι) :
    balance post (entries ++ entries') = balance post entries + balance post entries' := by
  simp [balance]

lemma balance_congr {post' : ι → M} (h : ∀ i ∈ entries, post i = post' i) :
    balance post entries = balance post' entries :=
  congrArg List.sum (List.map_congr_left h)

/-- What no entry posts to. -/
lemma balance_eq_zero (h : ∀ i ∈ entries, post i = 0) : balance post entries = 0 :=
  List.sum_eq_zero fun x hx => by
    obtain ⟨i, hi, rfl⟩ := List.mem_map.mp hx
    exact h i hi

/-- The order of the journal does not matter. -/
lemma balance_perm {entries' : List ι} (h : entries.Perm entries') :
    balance post entries = balance post entries' :=
  (h.map post).sum_eq

/-- An entry is taken out of the journal. -/
lemma balance_eraseIdx (post : ι → M) {n : ℕ} {i : ι} (h : entries[n]? = some i) :
    balance post entries = post i + balance post (entries.eraseIdx n) := by
  obtain ⟨hlt, rfl⟩ := List.getElem?_eq_some_iff.mp h
  exact (balance_perm (List.getElem_cons_eraseIdx_perm hlt)).symm.trans List.sum_cons

end

/-! ### All accounts together -/

section

variable {accounts : List α}

/-- What is posted under one key reaches one account. -/
lemma sum_key [DecidableEq α] (hnodup : accounts.Nodup) {k : α} (hk : k ∈ accounts) (v : M) :
    (accounts.map fun a => if k = a then v else 0).sum = v := by
  rw [List.sum_map_eq_nsmul_single k _ fun a hne _ => if_neg hne.symm,
    hnodup.count, if_pos hk, one_nsmul, if_pos rfl]

/-- The balances of all accounts sum to what each entry posts in all. -/
lemma sum_balance {post : α → ι → M} (total : ι → M) {entries : List ι}
    (h : ∀ i ∈ entries, (accounts.map fun a => post a i).sum = total i) :
    (accounts.map fun a => balance (post a) entries).sum = balance total entries := by
  induction entries with
  | nil => simp [balance]
  | cons i is ih =>
    have his := ih fun j hj => h j (by simp [hj])
    simp only [balance, List.map_cons, List.sum_cons] at his ⊢
    rw [List.sum_map_add, h i (by simp), his]

end

end Tally
