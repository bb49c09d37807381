import EuNEx.Lib.Sweep
import Mathlib.Order.Defs.Unbundled
import Mathlib.Data.Prod.Basic

/-!
# Ordered maps

`std::map<Key, T, Compare>`: the entries in the order of the comparator, one for each key. The
order is part of the type, so every operation below returns a map that is sorted again.
-/

variable {κ β σ α : Type*}

/-- An ordered map with comparator `lt`: its entries, strictly increasing in the key. -/
structure OrdMap (lt : κ → κ → Prop) (β : Type*) where
  entries : List (κ × β)
  sorted : entries.Pairwise fun a b => lt a.1 b.1

namespace OrdMap

section

variable {lt : κ → κ → Prop}

instance : EmptyCollection (OrdMap lt β) := ⟨⟨[], List.Pairwise.nil⟩⟩

@[simp] lemma entries_empty : (∅ : OrdMap lt β).entries = [] := rfl

@[ext] lemma ext {m n : OrdMap lt β} (h : m.entries = n.entries) : m = n := by
  cases m; cases n; cases h; rfl

instance [DecidableEq κ] [DecidableEq β] : DecidableEq (OrdMap lt β) := fun m n =>
  decidable_of_iff (m.entries = n.entries) ⟨ext, congrArg _⟩

/-- The keys, in order. -/
def keys (m : OrdMap lt β) : List κ := m.entries.map Prod.fst

lemma keys_sorted (m : OrdMap lt β) : m.keys.Pairwise lt := List.pairwise_map.mpr m.sorted

/-- Any entry list whose keys are some of the old keys, in order, is a map again. -/
def ofSublist (m : OrdMap lt β) (es : List (κ × β)) (h : (es.map Prod.fst).Sublist m.keys) :
    OrdMap lt β :=
  ⟨es, List.pairwise_map.mp (m.keys_sorted.sublist h)⟩

/-- The entry stored first; for a C++ map this is `*begin()`. -/
def first? (m : OrdMap lt β) : Option (κ × β) := m.entries.head?

/-- No entry comes before the first one. -/
lemma first?_le [IsStrictOrder κ lt] {m : OrdMap lt β} {e e' : κ × β} (h : m.first? = some e)
    (he' : e' ∈ m.entries) : e' = e ∨ lt e.1 e'.1 := by
  obtain ⟨es, hs⟩ := m
  cases es with
  | nil => simp at he'
  | cons a as =>
    simp only [first?, List.head?_cons, Option.some.injEq] at h
    subst h
    rcases List.mem_cons.mp he' with rfl | hmem
    · exact Or.inl rfl
    · exact Or.inr (List.rel_of_pairwise_cons hs hmem)

/-- A key has one entry. -/
lemma eq_of_mem [Std.Irrefl lt] {m : OrdMap lt β} {e e' : κ × β} (he : e ∈ m.entries)
    (he' : e' ∈ m.entries) (hk : e.1 = e'.1) : e = e' := by
  by_contra hne
  obtain ⟨as, bs, hsplit⟩ := List.append_of_mem he
  rw [hsplit] at he'
  have hs := m.sorted
  rw [hsplit, List.pairwise_append, List.pairwise_cons] at hs
  rcases List.mem_append.mp he' with h' | h'
  · exact irrefl (r := lt) e.1 (by simpa [hk] using hs.2.2 e' h' e (by simp))
  · rcases List.mem_cons.mp h' with rfl | h'
    · exact hne rfl
    · exact irrefl (r := lt) e.1 (by simpa [hk] using hs.2.1.1 e' h')

end

section

variable {lt : κ → κ → Prop} [DecidableEq κ]

/-- `map.find(key)`. -/
def find? (k : κ) (m : OrdMap lt β) : Option β :=
  (m.entries.find? fun e => e.1 = k).map Prod.snd

/-- `map.count(key) > 0`. -/
def contains (k : κ) (m : OrdMap lt β) : Bool := m.entries.any fun e => e.1 = k

lemma contains_iff {m : OrdMap lt β} {k : κ} : m.contains k = true ↔ k ∈ m.keys := by
  simp [contains, keys]

lemma find?_mem {m : OrdMap lt β} {k : κ} {v : β} (h : m.find? k = some v) :
    (k, v) ∈ m.entries := by
  obtain ⟨⟨k', v'⟩, he, hv⟩ := Option.map_eq_some_iff.mp h
  have hk : k' = k := by simpa using List.find?_some he
  cases hk
  cases hv
  exact List.mem_of_find?_eq_some he

lemma find?_eq_none {m : OrdMap lt β} {k : κ} (h : m.find? k = none) :
    ∀ e ∈ m.entries, e.1 ≠ k := by
  have hnone : (m.entries.find? fun e => e.1 = k) = none := Option.map_eq_none_iff.mp h
  intro e he hk
  simpa [hk] using List.find?_eq_none.mp hnone e he

lemma find?_of_mem [Std.Irrefl lt] {m : OrdMap lt β} {k : κ} {v : β} (h : (k, v) ∈ m.entries) :
    m.find? k = some v := by
  cases hf : m.find? k with
  | none => exact absurd rfl (find?_eq_none hf _ h)
  | some v' =>
    have heq := eq_of_mem (find?_mem hf) h rfl
    cases heq
    rfl

/-- Where `find?` sees a key, it splits the entries around it. -/
lemma find?_split {m : OrdMap lt β} {k : κ} {v : β} (h : m.find? k = some v) :
    ∃ as bs, m.entries = as ++ (k, v) :: bs ∧ ∀ e ∈ as, e.1 ≠ k := by
  obtain ⟨⟨k', v'⟩, he, hv⟩ := Option.map_eq_some_iff.mp h
  obtain ⟨hk, as, bs, hsplit, has⟩ := List.find?_eq_some_iff_append.mp he
  have hk : k' = k := by simpa using hk
  cases hk
  cases hv
  exact ⟨as, bs, hsplit, fun e he => by simpa using has e he⟩

/-- Update the value stored at `k`, if any, or erase it. -/
def adjustList (k : κ) (f : β → Option β) (es : List (κ × β)) : List (κ × β) :=
  es.flatMap fun e => if e.1 = k then ((f e.2).map (Prod.mk e.1)).toList else [e]

lemma adjustList_keys_sublist (k : κ) (f : β → Option β) (es : List (κ × β)) :
    ((adjustList k f es).map Prod.fst).Sublist (es.map Prod.fst) := by
  induction es with
  | nil => simp [adjustList]
  | cons e es ih =>
    simp only [adjustList, List.flatMap_cons, List.map_append, List.map_cons] at ih ⊢
    show List.Sublist _ ([e.1] ++ es.map Prod.fst)
    refine List.Sublist.append ?_ ih
    split
    · cases f e.2 <;> simp
    · simp

/-- `auto it = map.find(k)`, and if found: change `it->second`, or `map.erase(it)`. -/
def adjust (k : κ) (f : β → Option β) (m : OrdMap lt β) : OrdMap lt β :=
  m.ofSublist (adjustList k f m.entries) (adjustList_keys_sublist k f m.entries)

lemma adjustList_of_ne {k : κ} {f : β → Option β} {es : List (κ × β)} (h : ∀ e ∈ es, e.1 ≠ k) :
    adjustList k f es = es := by
  induction es with
  | nil => rfl
  | cons e es ih =>
    have he : e.1 ≠ k := h e (by simp)
    have hes := ih fun e' he' => h e' (by simp [he'])
    simp only [adjustList] at hes
    simp [adjustList, he, hes]

/-- `adjust` touches the entry found and nothing else. -/
lemma adjust_entries [Std.Irrefl lt] {m : OrdMap lt β} {k : κ} {v : β} {f : β → Option β}
    {as bs : List (κ × β)} (h : m.entries = as ++ (k, v) :: bs) :
    (m.adjust k f).entries = as ++ (((f v).map (Prod.mk k)).toList ++ bs) := by
  have hs := m.sorted
  rw [h, List.pairwise_append, List.pairwise_cons] at hs
  have has : ∀ e ∈ as, e.1 ≠ k := fun e he hk =>
    irrefl (r := lt) k (by simpa [hk] using hs.2.2 e he (k, v) (by simp))
  have hbs : ∀ e ∈ bs, e.1 ≠ k := fun e he hk =>
    irrefl (r := lt) k (by simpa [hk] using hs.2.1.1 e he)
  have happ : adjustList k f (as ++ (k, v) :: bs)
      = adjustList k f as ++ (((f v).map (Prod.mk k)).toList ++ adjustList k f bs) := by
    simp [adjustList]
  simp only [adjust, ofSublist, h, happ, adjustList_of_ne has, adjustList_of_ne hbs]

end

section

variable {lt : κ → κ → Prop} [DecidableRel lt]

variable (lt) in
/-- Insert at `k`, or replace the value already stored there. -/
def upsertList (k : κ) (f : Option β → β) : List (κ × β) → List (κ × β)
  | [] => [(k, f none)]
  | e :: es =>
    if lt k e.1 then (k, f none) :: e :: es
    else if lt e.1 k then e :: upsertList k f es
    else (e.1, f (some e.2)) :: es

lemma mem_upsertList {k : κ} {f : Option β → β} {es : List (κ × β)} {e : κ × β}
    (h : e ∈ upsertList lt k f es) :
    e ∈ es ∨ e = (k, f none) ∨ ∃ e' ∈ es, ¬lt k e'.1 ∧ ¬lt e'.1 k ∧ e = (e'.1, f (some e'.2)) := by
  induction es with
  | nil => simpa [upsertList] using h
  | cons a as ih =>
    simp only [upsertList] at h
    split at h
    · rcases List.mem_cons.mp h with h | h
      · exact Or.inr (Or.inl h)
      · exact Or.inl h
    · split at h
      · rcases List.mem_cons.mp h with rfl | h
        · exact Or.inl (by simp)
        · rcases ih h with h | h | ⟨e', he', h⟩
          · exact Or.inl (by simp [h])
          · exact Or.inr (Or.inl h)
          · exact Or.inr (Or.inr ⟨e', by simp [he'], h⟩)
      · rcases List.mem_cons.mp h with h | h
        · exact Or.inr (Or.inr ⟨a, by simp, by assumption, by assumption, h⟩)
        · exact Or.inl (by simp [h])

variable [IsStrictTotalOrder κ lt]

omit [DecidableRel lt] in
lemma eq_of_not_lt {a b : κ} (hab : ¬lt a b) (hba : ¬lt b a) : a = b := by
  rcases trichotomous_of lt a b with h | h | h
  · exact absurd h hab
  · exact h
  · exact absurd h hba

lemma upsertList_sorted (k : κ) (f : Option β → β) {es : List (κ × β)}
    (hs : es.Pairwise fun a b => lt a.1 b.1) :
    (upsertList lt k f es).Pairwise fun a b => lt a.1 b.1 := by
  induction es with
  | nil => simp [upsertList]
  | cons a as ih =>
    have ha : ∀ b ∈ as, lt a.1 b.1 := fun b hb => List.rel_of_pairwise_cons hs hb
    simp only [upsertList]
    split
    · rename_i hlt
      refine List.Pairwise.cons (fun b hb => ?_) hs
      rcases List.mem_cons.mp hb with rfl | hb
      · exact hlt
      · exact trans_of lt hlt (ha b hb)
    · split
      · rename_i hlt
        refine List.Pairwise.cons (fun b hb => ?_) (ih hs.of_cons)
        rcases mem_upsertList hb with hb | rfl | ⟨e, he, -, -, rfl⟩
        · exact ha b hb
        · exact hlt
        · exact ha e he
      · exact List.Pairwise.cons (fun b hb => ha b hb) hs.of_cons

/-- `map[k]` used as an lvalue: a missing entry is created from `f none`, an existing one becomes
`f` of its value. -/
def upsert (k : κ) (f : Option β → β) (m : OrdMap lt β) : OrdMap lt β :=
  ⟨upsertList lt k f m.entries, upsertList_sorted k f m.sorted⟩

/-- An entry after `upsert` is an old one, or the one at `k`. -/
lemma mem_upsert {k : κ} {f : Option β → β} {m : OrdMap lt β} {e : κ × β}
    (h : e ∈ (m.upsert k f).entries) :
    e ∈ m.entries ∨ e = (k, f none) ∨ ∃ v, (k, v) ∈ m.entries ∧ e = (k, f (some v)) := by
  rcases mem_upsertList h with h | h | ⟨⟨k', v⟩, he', h1, h2, rfl⟩
  · exact Or.inl h
  · exact Or.inr (Or.inl h)
  · obtain rfl := eq_of_not_lt h1 h2
    exact Or.inr (Or.inr ⟨v, he', rfl⟩)

/-- `upsert` either creates an entry between two neighbours or changes one in place. -/
lemma upsert_entries (k : κ) (f : Option β → β) (m : OrdMap lt β) :
    (∃ as bs, m.entries = as ++ bs ∧ (m.upsert k f).entries = as ++ (k, f none) :: bs) ∨
      ∃ as v bs, m.entries = as ++ (k, v) :: bs ∧
        (m.upsert k f).entries = as ++ (k, f (some v)) :: bs := by
  show (∃ as bs, m.entries = as ++ bs ∧ upsertList lt k f m.entries = _) ∨
    ∃ as v bs, m.entries = as ++ (k, v) :: bs ∧ upsertList lt k f m.entries = _
  induction m.entries with
  | nil => exact Or.inl ⟨[], [], rfl, rfl⟩
  | cons a es ih =>
    simp only [upsertList]
    split
    · exact Or.inl ⟨[], a :: es, rfl, rfl⟩
    · split
      · rcases ih with ⟨as, bs, h, h'⟩ | ⟨as, v, bs, h, h'⟩
        · exact Or.inl ⟨a :: as, bs, by simp [h], by simp [h']⟩
        · exact Or.inr ⟨a :: as, v, bs, by simp [h], by simp [h']⟩
      · rename_i h1 h2
        obtain rfl := eq_of_not_lt h1 h2
        exact Or.inr ⟨[], a.2, es, rfl, rfl⟩

end

/-! ### Maps of vectors -/

section

variable {lt : κ → κ → Prop} {stop : σ → κ → Bool} {visit : κ → σ → α → Option (σ × Option α)}

/-- Iterate over the map and over the vector at each key, erasing on the way. -/
def sweep (stop : σ → κ → Bool) (visit : κ → σ → α → Option (σ × Option α)) (s : σ)
    (m : OrdMap lt (List α)) : σ × OrdMap lt (List α) :=
  ((Sweep.sweepGroups stop visit s m.entries).1,
    m.ofSublist (Sweep.sweepGroups stop visit s m.entries).2 Sweep.sweepGroups_keys_sublist)

/-- All elements of the map's vectors, in order. -/
def elems (m : OrdMap lt (List α)) : List α := Sweep.ungroup m.entries

lemma mem_elems {m : OrdMap lt (List α)} {a : α} : a ∈ m.elems ↔ ∃ g ∈ m.entries, a ∈ g.2 :=
  Sweep.mem_ungroup

end

end OrdMap
