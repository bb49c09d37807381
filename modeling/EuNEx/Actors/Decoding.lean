import EuNEx.Actors.Exchange

/-!
# Quantities and symbols of requests

What the acceptor makes of tags 38 and 55. `strtoull` and `strtoul` never fail: they read the number
that a text begins with, take a negative one modulo `2 ^ 64`, and the largest one for one that is
too large; and the index of a symbol is the rest modulo `2 ^ 32`. What has an index that the gateway
does not map goes nowhere.
-/

namespace EuNEx

open CString (strtoull strtoul digits)

/-- `symbolToString`. -/
def symbolToString : ℕ → List Char
  | 1 => "AAPL".toList
  | 2 => "MSFT".toList
  | 3 => "GOOGL".toList
  | 4 => "TSLA".toList
  | 5 => "NVDA".toList
  | 6 => "AMD".toList
  | 7 => "ENX".toList
  | idx => CString.toString idx

/-- The text is a decimal numeral of the number. -/
def IsNumeral (s : List Char) (n : ℕ) : Prop :=
  s ≠ [] ∧ (∀ c ∈ s, c.isDigit = true) ∧ digits s = n

/-- The fields of a request are what the texts say. -/
structure Decoded (msg : TagMap) (symbolIdx quantity : ℕ) : Prop where
  quantity_lt : quantity < 2 ^ 64
  quantity : IsNumeral (getTag msg 38 []) quantity
  symbol : symbolToString symbolIdx = getTag msg 55 [] ∨
    getTag msg 55 [] = CString.toString symbolIdx

/-- The gateway has a book for the request. -/
def Exchange.Routed (x : Exchange) (event : MECoreEvent) : Prop :=
  x.books.lookup event.symbolIdx ≠ none

/-- The names of the symbols. -/
def symbolNames : List (List Char) := Exchange.allSymbols.map symbolToString

/-- The text is a name or a decimal index. -/
def IsSymbol (s : List Char) : Prop := s ∈ symbolNames ∨ ∃ n < 2 ^ 32, s = CString.toString n

/-- Neither the symbol of that name is mapped, nor, where the text is no name, what `strtoul` reads
from it. -/
def Exchange.Unlisted (x : Exchange) (s : List Char) : Prop :=
  (∀ idx ∈ allSymbols, symbolToString idx = s → x.books.lookup idx = none) ∧
    (s ∉ symbolNames → x.books.lookup (strtoul s % 2 ^ 32) = none)

/-- Both texts are in order, or nothing is listed under the one. -/
def Exchange.Readable (x : Exchange) (msg : TagMap) : Prop :=
  x.Unlisted (getTag msg 55 []) ∨
    (∃ n < 2 ^ 64, IsNumeral (getTag msg 38 []) n) ∧ IsSymbol (getTag msg 55 [])

variable {s : List Char} {n idx : ℕ} {x : Exchange}

/-! ### Quantities -/

lemma strtoull_of_isNumeral (h : IsNumeral s n) (hn : n < 2 ^ 64) : strtoull s = n := by
  obtain ⟨-, hdigits, rfl⟩ := h
  rw [CString.strtoull_of_digits hdigits, if_neg (Nat.not_le.mpr hn)]

/-- A quantity is what the text says exactly if the text says what fits a quantity. -/
lemma isNumeral_strtoull_iff : IsNumeral s (strtoull s) ↔ ∃ n < 2 ^ 64, IsNumeral s n := by
  constructor
  · intro h
    exact ⟨strtoull s, CString.strtoull_lt s, h⟩
  · rintro ⟨n, hn, h⟩
    rwa [strtoull_of_isNumeral h hn]

/-! ### Symbols -/

lemma symbolFromString_symbolToString :
    ∀ idx ∈ Exchange.allSymbols, symbolFromString (symbolToString idx) = idx := by
  decide

lemma symbolFromString_of_not_mem (hs : s ∉ symbolNames) :
    symbolFromString s = strtoul s % 2 ^ 32 := by
  simp only [symbolNames, Exchange.allSymbols, List.map_cons, List.map_nil, symbolToString,
    List.mem_cons, List.not_mem_nil, or_false, not_or] at hs
  obtain ⟨h1, h2, h3, h4, h5, h6, h7⟩ := hs
  rw [symbolFromString, if_neg h1, if_neg h2, if_neg h3, if_neg h4, if_neg h5, if_neg h6, if_neg h7]

lemma symbolFromString_lt (s : List Char) : symbolFromString s < 2 ^ 32 := by
  by_cases hs : s ∈ symbolNames
  · obtain ⟨idx, hidx, rfl⟩ := List.mem_map.mp hs
    rw [symbolFromString_symbolToString idx hidx]
    revert hidx idx
    decide
  · rw [symbolFromString_of_not_mem hs]
    exact Nat.mod_lt _ (by decide)

/-- No name begins with a digit. -/
lemma toString_not_mem : CString.toString n ∉ symbolNames := by
  intro h
  have hnames : ∀ name ∈ symbolNames, name.all Char.isDigit = false := by decide
  have hdigits : (CString.toString n).all Char.isDigit = true :=
    List.all_eq_true.mpr fun c hc => CString.isDigit_of_mem_toString hc
  rw [hnames _ h] at hdigits
  cases hdigits

lemma symbolFromString_toString (hn : n < 2 ^ 32) : symbolFromString (CString.toString n) = n := by
  have hlt : n < 2 ^ 64 := hn.trans (by decide)
  rw [symbolFromString_of_not_mem toString_not_mem, strtoul, CString.strtoull_toString hlt,
    Nat.mod_eq_of_lt hn]

/-- A symbol beyond those with a name has its index as a name. -/
lemma symbolToString_eq (idx : ℕ) :
    symbolToString idx ∈ symbolNames ∨ symbolToString idx = CString.toString idx := by
  unfold symbolToString
  split
  all_goals first
    | exact Or.inr rfl
    | exact Or.inl (by decide)

lemma isSymbol_iff : IsSymbol s ↔ symbolToString (symbolFromString s) = s ∨
    s = CString.toString (symbolFromString s) := by
  constructor
  · rintro (hname | ⟨n, hn, rfl⟩)
    · obtain ⟨idx, hidx, rfl⟩ := List.mem_map.mp hname
      rw [symbolFromString_symbolToString idx hidx]
      exact Or.inl rfl
    · rw [symbolFromString_toString hn]
      exact Or.inr rfl
  · rintro (h | h)
    · rcases symbolToString_eq (symbolFromString s) with hname | hidx
      · exact Or.inl (h ▸ hname)
      · exact Or.inr ⟨_, symbolFromString_lt s, h.symm.trans hidx⟩
    · exact Or.inr ⟨_, symbolFromString_lt s, h⟩

lemma unlisted_iff : x.Unlisted s ↔ x.books.lookup (symbolFromString s) = none := by
  by_cases hs : s ∈ symbolNames
  · obtain ⟨idx, hidx, rfl⟩ := List.mem_map.mp hs
    rw [symbolFromString_symbolToString idx hidx]
    constructor
    · intro h
      exact h.1 idx hidx rfl
    · intro h
      refine ⟨fun idx' hidx' heq => ?_, fun hne => absurd hs hne⟩
      rwa [← symbolFromString_symbolToString idx' hidx', heq,
        symbolFromString_symbolToString idx hidx]
  · rw [symbolFromString_of_not_mem hs]
    constructor
    · intro h
      exact h.2 hs
    · intro h
      refine ⟨fun idx hidx heq => ?_, fun _ => h⟩
      exact absurd (List.mem_map.mpr ⟨idx, hidx, heq⟩) hs

/-! ### Requests -/

/-- What holds of the fields of either request. -/
lemma routed_decoded_iff (x : Exchange) (msg : TagMap) :
    (x.books.lookup (symbolFromString (getTag msg 55 [])) ≠ none →
      Decoded msg (symbolFromString (getTag msg 55 [])) (strtoull (getTag msg 38 []))) ↔
    x.Readable msg := by
  have hdecoded : Decoded msg (symbolFromString (getTag msg 55 [])) (strtoull (getTag msg 38 [])) ↔
      (∃ n < 2 ^ 64, IsNumeral (getTag msg 38 []) n) ∧ IsSymbol (getTag msg 55 []) := by
    rw [← isNumeral_strtoull_iff, isSymbol_iff]
    constructor
    · intro h
      exact ⟨h.quantity, h.symbol⟩
    · rintro ⟨hquantity, hsymbol⟩
      exact ⟨CString.strtoull_lt _, hquantity, hsymbol⟩
  rw [Exchange.Readable, unlisted_iff, hdecoded]
  exact or_iff_not_imp_left.symm

/-- What goes to a book has the fields of the message exactly if the texts are in order, or nothing
is listed under the symbol. -/
theorem decoded_iff (px : PriceText) (x : Exchange) (sess : FIXSession) (msg : TagMap) :
    ((x.Routed (.newOrder (handleNewOrderSingle px sess msg)) →
        Decoded msg (handleNewOrderSingle px sess msg).symbolIdx
          (handleNewOrderSingle px sess msg).quantity) ↔ x.Readable msg) ∧
      ((x.Routed (.modifyOrder (handleCancelReplaceRequest px sess msg)) →
        Decoded msg (handleCancelReplaceRequest px sess msg).symbolIdx
          (handleCancelReplaceRequest px sess msg).newQuantity) ↔ x.Readable msg) :=
  ⟨routed_decoded_iff x msg, routed_decoded_iff x msg⟩

/-- A request for minus five AAPL. -/
def minusFive : TagMap := [⟨55, "AAPL".toList⟩, ⟨38, "-5".toList⟩].toFinmap

/-- A request for five of the symbol `2 ^ 32 + 1`. -/
def beyondSymbols : TagMap := [⟨55, "4294967297".toList⟩, ⟨38, "5".toList⟩].toFinmap

/-- A negative quantity becomes a large one, and an index that is too large one with a book. -/
theorem not_decoded : strtoull "-5".toList = 2 ^ 64 - 5 ∧ symbolFromString "4294967297".toList = 1 ∧
    (¬∀ (px : PriceText) (x : Exchange) (sess : FIXSession),
      x.Routed (.newOrder (handleNewOrderSingle px sess minusFive)) →
        Decoded minusFive (handleNewOrderSingle px sess minusFive).symbolIdx
          (handleNewOrderSingle px sess minusFive).quantity) ∧
    ¬∀ (px : PriceText) (x : Exchange) (sess : FIXSession),
      x.Routed (.modifyOrder (handleCancelReplaceRequest px sess beyondSymbols)) →
        Decoded beyondSymbols (handleCancelReplaceRequest px sess beyondSymbols).symbolIdx
          (handleCancelReplaceRequest px sess beyondSymbols).newQuantity := by
  refine ⟨by decide, by decide, fun h => ?_, fun h => ?_⟩
  · have hrouted : Exchange.main.books.lookup (symbolFromString (getTag minusFive 55 []))
        ≠ none := by
      decide
    have hdecoded := h ⟨fun _ => 0, fun _ => []⟩ Exchange.main { sessionId := 100 } hrouted
    exact absurd (List.all_eq_true.mpr hdecoded.quantity.2.1) (by decide)
  · have hsymbol : symbolFromString (getTag beyondSymbols 55 []) = 1 := by decide
    have hrouted : Exchange.main.books.lookup (symbolFromString (getTag beyondSymbols 55 []))
        ≠ none := by
      rw [hsymbol]
      decide
    have hdecoded := h ⟨fun _ => 0, fun _ => []⟩ Exchange.main { sessionId := 100 } hrouted
    have hname : symbolToString (symbolFromString (getTag beyondSymbols 55 []))
        = getTag beyondSymbols 55 [] ∨ getTag beyondSymbols 55 []
        = CString.toString (symbolFromString (getTag beyondSymbols 55 [])) := hdecoded.symbol
    rw [hsymbol] at hname
    exact absurd hname (by decide)

end EuNEx
