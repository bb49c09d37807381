import EuNEx.Lib.CString
import Mathlib.Data.List.DropRight

/-!
# Strings of Python

`str.split`, `int` and `bytes.decode`, of strings that come from ASCII, and `str.encode`. A byte is
a character below 256.
-/

namespace PyString

/-- `bytes.decode("ascii", errors="replace")`, of one byte. -/
def decodeByte (c : Char) : Char := if c.toNat < 128 then c else Char.ofNat 0xFFFD

def decode (s : List Char) : List Char := s.map decodeByte

/-- The bytes of a character in UTF-8. -/
def encodeChar (c : Char) : List Char := (String.utf8EncodeChar c).map fun b => Char.ofNat b.toNat

/-- `str.encode()`. -/
def encode (s : List Char) : List Char := s.flatMap encodeChar

/-- The spaces that `int` skips in a string of ASCII; `str.isspace` knows four more. -/
def isSpace (c : Char) : Bool := c.toNat = 32 || (9 ≤ c.toNat && c.toNat ≤ 13)

/-- What `int` leaves of a string before it looks for digits. -/
def strip (s : List Char) : List Char := (s.dropWhile isSpace).rdropWhile isSpace

/-- `int(s)`, or `none` for a `ValueError`. There may be underscores between digits. A limit on the
number of digits is left out. -/
def int (s : List Char) : Option ℤ :=
  match CString.sign (strip s) with
  | (negative, s) =>
    if (s.splitOn '_').all fun part => !part.isEmpty && part.all Char.isDigit then
      let n := CString.digits (s.splitOn '_').flatten
      some (if negative then -n else n)
    else none

/-- `str(n)`. -/
def str (n : ℤ) : List Char :=
  if n < 0 then '-' :: CString.toString n.natAbs else CString.toString n.natAbs

/-- `s.split("=", 1)`, if there is a `=`. -/
def splitEq (s : List Char) : List Char × List Char :=
  (s.takeWhile (· ≠ '='), (s.dropWhile (· ≠ '=')).drop 1)

/-- `s.isascii()`. -/
def IsAscii (s : List Char) : Prop := ∀ c ∈ s, c.toNat < 128

instance (s : List Char) : Decidable (IsAscii s) := List.decidableBAll (Char.toNat · < 128) s

variable {n : ℕ} {s : List Char}

lemma decodeByte_of_lt {c : Char} (hc : c.toNat < 128) : decodeByte c = c := if_pos hc

lemma decode_of_ascii (hs : IsAscii s) : decode s = s := by
  rw [decode, List.map_congr_left fun c hc => decodeByte_of_lt (hs c hc), List.map_id']

/-- A byte beyond ASCII is not to be found in what is decoded. -/
lemma lt_of_mem_decode {c : Char} (hc : c ∈ decode s) (hbyte : c.toNat < 256) : c.toNat < 128 := by
  obtain ⟨b, -, rfl⟩ := List.mem_map.mp hc
  rw [decodeByte] at hbyte ⊢
  split at hbyte
  · rwa [if_pos ‹_›]
  · exact absurd hbyte (by decide)

/-! ### UTF-8 -/

section

variable {c : Char} {pat t : List Char}

lemma encodeChar_of_lt (hc : c.toNat < 128) : encodeChar c = [c] := by
  have hle : c.val.toNat ≤ 0x7f := Nat.le_of_lt_succ hc
  have hbyte : (UInt8.ofNat c.toNat).toNat = c.toNat := Nat.mod_eq_of_lt (by omega)
  rw [encodeChar, String.utf8EncodeChar, if_pos hle]
  show [Char.ofNat (UInt8.ofNat c.toNat).toNat] = [c]
  rw [hbyte, Char.ofNat_toNat]

/-- The bytes of a character beyond ASCII are beyond ASCII. -/
lemma le_of_mem_encodeChar (hc : 128 ≤ c.toNat) {b : Char} (hb : b ∈ encodeChar c) :
    128 ≤ b.toNat := by
  have hle : ¬c.val.toNat ≤ 0x7f := by
    change ¬c.toNat ≤ 0x7f
    omega
  obtain ⟨byte, hbyte, rfl⟩ := List.mem_map.mp hb
  have hlt : byte.toNat < 256 := byte.toNat_lt
  have hnat : (Char.ofNat byte.toNat).toNat = byte.toNat := by
    rw [Char.ofNat, dif_pos (show byte.toNat.isValidChar from .inl (by omega))]
    rfl
  rw [hnat]
  rw [String.utf8EncodeChar, if_neg hle] at hbyte
  split_ifs at hbyte <;> simp only [List.mem_cons, List.not_mem_nil, or_false] at hbyte
  · rcases hbyte with rfl | rfl <;> simp <;> omega
  · rcases hbyte with rfl | rfl | rfl <;> simp <;> omega
  · rcases hbyte with rfl | rfl | rfl | rfl <;> simp <;> omega

lemma encodeChar_ne_nil : encodeChar c ≠ [] := by
  simp [encodeChar, String.utf8EncodeChar_ne_nil]

@[simp] lemma encode_nil : encode [] = [] := rfl

@[simp] lemma encode_append : encode (s ++ t) = encode s ++ encode t := List.flatMap_append

lemma encode_cons : encode (c :: s) = encodeChar c ++ encode s := List.flatMap_cons

lemma encode_of_ascii (hs : IsAscii s) : encode s = s := by
  induction s with
  | nil => rfl
  | cons c s ih =>
    rw [encode_cons, encodeChar_of_lt (hs c (by simp)), ih fun c hc => hs c (by simp [hc])]
    rfl

lemma prefix_of_prefix_encode (hpat : IsAscii pat) (h : pat <+: encode s) :
    pat <+: s := by
  induction s generalizing pat with
  | nil => exact h
  | cons c s ih =>
    cases pat with
    | nil => exact List.nil_prefix
    | cons p pat =>
      rw [encode_cons] at h
      by_cases hc : c.toNat < 128
      · rw [encodeChar_of_lt hc, List.singleton_append, List.cons_prefix_cons] at h
        exact List.cons_prefix_cons.mpr ⟨h.1, ih (fun c hc => hpat c (by simp [hc])) h.2⟩
      · obtain ⟨b, bs, hbs⟩ := List.exists_cons_of_ne_nil (encodeChar_ne_nil (c := c))
        have hb := le_of_mem_encodeChar (not_lt.mp hc) (hbs ▸ List.mem_cons_self)
        rw [hbs, List.cons_append, List.cons_prefix_cons] at h
        have hp := hpat p (by simp)
        rw [h.1] at hp
        omega

/-- A pattern of ASCII is found where it was before. -/
lemma infix_of_infix_encode (hpat : IsAscii pat) (hne : pat ≠ [])
    (h : pat <:+: encode s) : pat <:+: s := by
  induction s with
  | nil => exact h
  | cons c s ih =>
    by_cases hc : c.toNat < 128
    · have hstart := prefix_of_prefix_encode (s := c :: s) hpat
      rw [encode_cons, encodeChar_of_lt hc, List.singleton_append] at h hstart
      rcases List.infix_cons_iff.mp h with h | h
      · exact (hstart h).isInfix
      · exact List.infix_cons (ih h)
    · refine List.infix_cons (ih ?_)
      have hbytes : ∀ b ∈ encodeChar c, 128 ≤ b.toNat :=
        fun b hb => le_of_mem_encodeChar (not_lt.mp hc) hb
      rw [encode_cons] at h
      generalize encodeChar c = bytes at h hbytes
      induction bytes with
      | nil => exact h
      | cons b bs ihbs =>
        rw [List.cons_append] at h
        rcases List.infix_cons_iff.mp h with h | h
        · obtain ⟨p, pat, rfl⟩ := List.exists_cons_of_ne_nil hne
          have hp := hpat p (by simp)
          rw [(List.cons_prefix_cons.mp h).1] at hp
          have hb := hbytes b (by simp)
          omega
        · exact ihbs h fun b hb => hbytes b (by simp [hb])

lemma mem_of_mem_encode (hc : c.toNat < 128) (h : c ∈ encode s) : c ∈ s := by
  obtain ⟨d, hd, hmem⟩ := List.mem_flatMap.mp h
  by_cases hlt : d.toNat < 128
  · rw [encodeChar_of_lt hlt, List.mem_singleton] at hmem
    exact hmem ▸ hd
  · have hle := le_of_mem_encodeChar (not_lt.mp hlt) hmem
    omega

end

/-! ### Numbers -/

lemma isSpace_of_isDigit {c : Char} (hc : c.isDigit = true) : isSpace c = false := by
  have hnat := CString.toNat_of_isDigit hc
  simp only [isSpace, Bool.or_eq_false_iff, decide_eq_false_iff_not, Bool.and_eq_false_imp,
    decide_eq_true_eq]
  omega

lemma strip_of_digits (hs : ∀ c ∈ s, c.isDigit = true) : strip s = s := by
  rw [strip, CString.dropWhile_of_digits (fun c hc => isSpace_of_isDigit hc) hs]
  refine List.rdropWhile_eq_self_iff.mpr fun hne => ?_
  simp [isSpace_of_isDigit (hs _ (List.getLast_mem hne))]

/-- Digits are read whole. -/
lemma int_of_digits (hne : s ≠ []) (hs : ∀ c ∈ s, c.isDigit = true) :
    int s = some (CString.digits s : ℤ) := by
  have hunderscore : '_' ∉ s := fun hmem => absurd (hs _ hmem) (by decide)
  have hdigits : [s].all (fun part => !part.isEmpty && part.all Char.isDigit) = true := by
    simpa [hne] using fun c hc => hs c hc
  rw [int, strip_of_digits hs, CString.sign_of_digits hs]
  simp only [List.splitOn_eq_singleton hunderscore, if_pos hdigits, List.flatten_cons,
    List.flatten_nil, List.append_nil, Bool.false_eq_true, if_false]

lemma str_natCast (n : ℕ) : str n = CString.toString n := if_neg (Int.natCast_nonneg n).not_gt

lemma mem_str {c : Char} {n : ℤ} (hc : c ∈ str n) : c = '-' ∨ c.isDigit = true := by
  rw [str] at hc
  split at hc
  · exact (List.mem_cons.mp hc).imp_right CString.isDigit_of_mem_toString
  · exact .inr (CString.isDigit_of_mem_toString hc)

/-- A tag that is printed and read is the same. -/
theorem int_toString : int (CString.toString n) = some (n : ℤ) := by
  rw [int_of_digits CString.toString_ne_nil fun c hc => CString.isDigit_of_mem_toString hc,
    CString.digits_toString]

lemma mem_of_mem_strip {c : Char} (hc : c ∈ strip s) : c ∈ s :=
  (List.dropWhile_sublist _).subset ((List.rdropWhile_prefix _ _).subset hc)

/-- Without a digit there is no number. -/
lemma int_of_forall_not_isDigit (hs : ∀ c ∈ s, c.isDigit = false) : int s = none := by
  rw [int]
  have hsign : ∀ c ∈ (CString.sign (strip s)).2, c.isDigit = false :=
    fun c hc => hs c (mem_of_mem_strip (CString.mem_of_mem_sign hc))
  generalize CString.sign (strip s) = sign at hsign ⊢
  obtain ⟨negative, rest⟩ := sign
  refine if_neg fun hall => ?_
  obtain ⟨part, parts, hparts⟩ := List.exists_cons_of_ne_nil (List.splitOn_ne_nil '_' rest)
  have hmem : part ∈ rest.splitOn '_' := hparts ▸ List.mem_cons_self
  have hpart := List.all_eq_true.mp hall part hmem
  rw [Bool.and_eq_true, Bool.not_eq_true', List.isEmpty_eq_false_iff, List.all_eq_true] at hpart
  obtain ⟨c, tail, rfl⟩ := List.exists_cons_of_ne_nil hpart.1
  have hc : c ∈ rest := by
    have hrest : ['_'].intercalate (rest.splitOn '_') = rest := List.intercalate_splitOn '_'
    rw [← hrest, hparts]
    cases parts with
    | nil => simp
    | cons part' parts => simp [List.intercalate_cons_cons]
  exact absurd (hpart.2 c List.mem_cons_self) (by simp [hsign c hc])

lemma splitEq_append {t : List Char} (hs : '=' ∉ s) : splitEq (s ++ '=' :: t) = (s, t) := by
  have hall : ∀ c ∈ s, (decide (c ≠ '=')) = true := by
    intro c hc
    simp only [ne_eq, decide_eq_true_eq]
    rintro rfl
    exact hs hc
  rw [splitEq, List.takeWhile_append_of_pos hall, List.dropWhile_append_of_pos hall]
  simp

end PyString
