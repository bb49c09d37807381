import Mathlib.Data.List.Basic
import Mathlib.Tactic.Common

/-!
# Rolling windows

A list that is appended to, and gives up its first entry when it has grown beyond a bound. What is
in it is the end of all that was ever appended.
-/

namespace Window

variable {α : Type*} (n : ℕ)

/-- The last `n` entries of a list, or all of them. -/
def last (xs : List α) : List α := xs.drop (xs.length - n)

/-- Append, and erase the first entry if there are too many. -/
def push (window : List α) (x : α) : List α :=
  let window := window ++ [x]
  if n < window.length then window.tail else window

variable {n} {xs : List α} {x : α}

lemma length_last : (last n xs).length = min n xs.length := by
  rw [last, List.length_drop]
  omega

lemma last_eq_self (h : xs.length ≤ n) : last n xs = xs := by
  rw [last, Nat.sub_eq_zero_of_le h, List.drop_zero]

theorem push_last (xs : List α) (x : α) : push n (last n xs) x = last n (xs ++ [x]) := by
  have hlength : (last n xs ++ [x]).length = min n xs.length + 1 := by
    rw [List.length_append, length_last, List.length_singleton]
  simp only [push, hlength]
  split
  · rename_i hfull
    have hle : n ≤ xs.length := by omega
    have hdrop : (xs ++ [x]).length - n = xs.length - n + 1 := by
      rw [List.length_append, List.length_singleton]
      omega
    rw [last, last, hdrop, ← List.drop_append_of_le_length (Nat.sub_le _ _), List.tail_drop]
  · rename_i hfits
    have hlt : xs.length < n := by omega
    have hle : (xs ++ [x]).length ≤ n := by
      rw [List.length_append, List.length_singleton]
      exact hlt
    rw [last_eq_self (Nat.le_of_lt hlt), last_eq_self hle]

/-- Whatever is appended, the window shows the end of it. -/
theorem foldl_push (xs ys : List α) : ys.foldl (push n) (last n xs) = last n (xs ++ ys) := by
  induction ys generalizing xs with
  | nil => rw [List.append_nil, List.foldl_nil]
  | cons y ys ih => rw [List.foldl_cons, push_last, ih, List.append_assoc, List.singleton_append]

end Window
