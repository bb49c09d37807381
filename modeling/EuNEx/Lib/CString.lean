import Mathlib.Algebra.GroupWithZero.Nat
import Mathlib.Algebra.Order.Ring.Int
import Mathlib.Data.List.TakeWhile
import Mathlib.Data.Nat.Notation
import Mathlib.Tactic.Common

/-!
# Strings of C and C++

A `std::string` is a list of characters, each of which stands for a byte. The functions of the C
library that read numbers from a string, for 64-bit `unsigned long` and `unsigned long long`.
-/

namespace CString

/-- `c_str()` as the C library sees it: what comes before the first zero byte. -/
def cStr (s : List Char) : List Char := s.takeWhile fun c => c.toNat ≠ 0

/-- `isspace` in the C locale. -/
def isSpace (c : Char) : Bool := c.toNat = 32 || (9 ≤ c.toNat && c.toNat ≤ 13)

/-- The sign that a number may begin with, and the rest. -/
def sign : List Char → Bool × List Char
  | '-' :: s => (true, s)
  | '+' :: s => (false, s)
  | s => (false, s)

/-- The value of the decimal digits that the string begins with. -/
def digits (s : List Char) : ℕ :=
  (s.takeWhile Char.isDigit).foldl (fun acc c => 10 * acc + (c.toNat - '0'.toNat)) 0

/-- `strtoull(s, nullptr, 10)`, which saturates, and negates modulo `2 ^ 64`. -/
def strtoull (s : List Char) : ℕ :=
  match sign ((cStr s).dropWhile isSpace) with
  | (negative, s) =>
    if 2 ^ 64 ≤ digits s then 2 ^ 64 - 1
    else if negative then (2 ^ 64 - digits s) % 2 ^ 64
    else digits s

/-- `strtoul(s, nullptr, 10)`. -/
def strtoul (s : List Char) : ℕ := strtoull s

/-- `strtol(s, nullptr, 10)`, which saturates. -/
def strtol (s : List Char) : ℤ :=
  match sign ((cStr s).dropWhile isSpace) with
  | (negative, s) => if negative then max (-2 ^ 63) (-digits s) else min (2 ^ 63 - 1) (digits s)

/-- `atoi`, which casts what `strtol` returns to 32 bits. -/
def atoi (s : List Char) : ℤ := (strtol s).bmod (2 ^ 32)

/-- `std::to_string` of an unsigned integer. -/
def toString (n : ℕ) : List Char := Nat.toDigits 10 n

/-! ### Decimals -/

variable {n : ℕ} {s : List Char}

lemma isDigit_of_mem_toString {c : Char} (hc : c ∈ toString n) : c.isDigit = true :=
  Nat.isDigit_of_mem_toDigits (by decide) (by decide) hc

lemma isDigit_of_mem_padded {k : ℕ} {c : Char} (hc : c ∈ List.replicate k '0' ++ toString n) :
    c.isDigit = true := by
  rcases List.mem_append.mp hc with hzero | hdigit
  · rw [List.eq_of_mem_replicate hzero]
    rfl
  · exact isDigit_of_mem_toString hdigit

lemma toNat_of_isDigit {c : Char} (hc : c.isDigit = true) : 48 ≤ c.toNat ∧ c.toNat ≤ 57 := by
  simp only [Char.isDigit, Bool.and_eq_true, decide_eq_true_eq, ge_iff_le, UInt32.le_iff_toNat_le]
    at hc
  exact hc

/-- A digit is no zero byte, no space and no sign. -/
lemma of_isDigit {c : Char} (hc : c.isDigit = true) :
    c.toNat ≠ 0 ∧ isSpace c = false ∧ c ≠ '-' ∧ c ≠ '+' := by
  have hnat := toNat_of_isDigit hc
  refine ⟨by omega, ?_, ?_, ?_⟩
  · simp only [isSpace, Bool.or_eq_false_iff, decide_eq_false_iff_not, Bool.and_eq_false_imp,
      decide_eq_true_eq]
    omega
  · rintro rfl
    exact absurd hnat.1 (by decide)
  · rintro rfl
    exact absurd hnat.1 (by decide)

lemma takeWhile_isDigit_toString : (toString n).takeWhile Char.isDigit = toString n :=
  List.takeWhile_eq_self_iff.mpr fun _ hc => isDigit_of_mem_toString hc

lemma digits_toString : digits (toString n) = n := by
  rw [digits, takeWhile_isDigit_toString, ← Nat.ofDigitChars_eq_foldl]
  exact Nat.ofDigitChars_ten_toDigits

lemma toString_ne_nil : toString n ≠ [] := Nat.toDigits_ne_nil

/-- Nothing is to be skipped before digits. -/
lemma dropWhile_of_digits {p : Char → Bool} (hp : ∀ c, c.isDigit = true → p c = false)
    (hs : ∀ c ∈ s, c.isDigit = true) : s.dropWhile p = s := by
  refine List.dropWhile_eq_self_iff.mpr fun hlength => ?_
  simpa using hp _ (hs _ (List.getElem_mem hlength))

lemma sign_of_digits (hs : ∀ c ∈ s, c.isDigit = true) : sign s = (false, s) := by
  cases s with
  | nil => rfl
  | cons c s =>
    obtain ⟨-, -, hminus, hplus⟩ := of_isDigit (hs c List.mem_cons_self)
    simp [sign, hminus, hplus]

lemma mem_of_mem_sign {c : Char} (hc : c ∈ (sign s).2) : c ∈ s := by
  unfold sign at hc
  split at hc
  · exact List.mem_cons_of_mem _ hc
  · exact List.mem_cons_of_mem _ hc
  · exact hc

/-- Digits are read whole. -/
lemma sign_cStr_of_digits (hs : ∀ c ∈ s, c.isDigit = true) :
    sign ((cStr s).dropWhile isSpace) = (false, s) := by
  have hcStr : cStr s = s := by
    apply List.takeWhile_eq_self_iff.mpr
    intro c hc
    simpa using (of_isDigit (hs c hc)).1
  rw [hcStr, dropWhile_of_digits (fun c hc => (of_isDigit hc).2.1) hs, sign_of_digits hs]

lemma strtoull_of_digits (hs : ∀ c ∈ s, c.isDigit = true) :
    strtoull s = if 2 ^ 64 ≤ digits s then 2 ^ 64 - 1 else digits s := by
  rw [strtoull, sign_cStr_of_digits hs]
  rfl

theorem strtoull_toString (hn : n < 2 ^ 64) : strtoull (toString n) = n := by
  rw [strtoull_of_digits fun _ hc => isDigit_of_mem_toString hc, digits_toString,
    if_neg (Nat.not_le.mpr hn)]

lemma atoi_of_digits (hs : ∀ c ∈ s, c.isDigit = true) (hlt : digits s < 2 ^ 31) :
    atoi s = digits s := by
  have hstrtol : strtol s = digits s := by
    rw [strtol, sign_cStr_of_digits hs]
    simp only [Bool.false_eq_true, if_false]
    omega
  rw [atoi, hstrtol]
  exact Int.bmod_eq_of_le (by omega) (by omega)

theorem atoi_toString (hn : n < 2 ^ 31) : atoi (toString n) = n := by
  have hlt : digits (toString n) < 2 ^ 31 := by rwa [digits_toString]
  rw [atoi_of_digits (fun _ hc => isDigit_of_mem_toString hc) hlt, digits_toString]

lemma digits_of_forall_not_isDigit (hs : ∀ c ∈ s, c.isDigit = false) : digits s = 0 := by
  rw [digits, List.takeWhile_eq_nil_iff.mpr fun hlength => by
    simpa using hs _ (List.getElem_mem hlength)]
  rfl

/-- Without a digit, what is read is zero. -/
lemma atoi_of_forall_not_isDigit (hs : ∀ c ∈ s, c.isDigit = false) : atoi s = 0 := by
  have hstrtol : strtol s = 0 := by
    rw [strtol]
    have hsign : ∀ c ∈ (sign ((cStr s).dropWhile isSpace)).2, c.isDigit = false :=
      fun c hc => hs c ((List.takeWhile_sublist _).subset
        ((List.dropWhile_sublist _).subset (mem_of_mem_sign hc)))
    generalize sign ((cStr s).dropWhile isSpace) = sign at hsign ⊢
    obtain ⟨negative, rest⟩ := sign
    simp [digits_of_forall_not_isDigit hsign]
  rw [atoi, hstrtol]
  rfl

lemma atoi_lt (s : List Char) : atoi s < 2 ^ 31 := by
  have h := Int.bmod_lt (x := strtol s) (m := 2 ^ 32) (by decide)
  exact Int.lt_of_lt_of_le h (by decide)

lemma strtoull_lt (s : List Char) : strtoull s < 2 ^ 64 := by
  unfold strtoull
  split
  split_ifs with hbig
  · omega
  · exact Nat.mod_lt _ (by decide)
  · omega

/-- The strings that survive being read and printed are the decimals in range. -/
theorem toString_strtoull_eq_iff : toString (strtoull s) = s ↔ ∃ n < 2 ^ 64, s = toString n := by
  constructor
  · intro h
    exact ⟨strtoull s, strtoull_lt s, h.symm⟩
  · rintro ⟨n, hn, rfl⟩
    rw [strtoull_toString hn]

example : strtoull "  +154x".toList = 154 := by decide

example : strtoull "-1".toList = 2 ^ 64 - 1 := by decide

end CString
