import Mathlib.Algebra.Order.Ring.Int
import Mathlib.Data.Nat.Notation
import Mathlib.Tactic.Common

/-!
# Random choices

A random number is a natural number, which is mapped to a number of a range or an element of a list.
What holds for all random numbers holds for all random choices.
-/

namespace Random

/-- A number between two others, both included. -/
def uniform (lo hi : ℤ) (n : ℕ) : ℤ := lo + n % (hi - lo + 1)

/-- An element of a list, if there is one. -/
def choice {α : Type*} (l : List α) (n : ℕ) : Option α := l[n % l.length]?

lemma uniform_mem (lo hi : ℤ) (h : lo ≤ hi) (n : ℕ) :
    lo ≤ uniform lo hi n ∧ uniform lo hi n ≤ hi := by
  have hpos : 0 < hi - lo + 1 := by omega
  have hnonneg := Int.emod_nonneg n hpos.ne'
  have hlt := Int.emod_lt_of_pos n hpos
  rw [uniform]
  omega

lemma mem_of_choice {α : Type*} {l : List α} {n : ℕ} {a : α} (h : choice l n = some a) : a ∈ l :=
  List.mem_of_getElem? h

end Random
