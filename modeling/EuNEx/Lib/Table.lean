import Mathlib.Logic.Function.Basic

/-!
# Tables with a unique key

A table as the row of each key, with the statements that change one row. The statements say nothing
of the order of the rows.
-/

/-- A table with a unique key. -/
abbrev Table (κ ρ : Type*) := κ → Option ρ

namespace Table

variable {κ ρ : Type*} [DecidableEq κ] (t : Table κ ρ) (key : κ)

/-- `INSERT … ON CONFLICT(key) DO UPDATE`. -/
def upsert (row : ρ) (update : ρ → ρ) : Table κ ρ :=
  Function.update t key (some ((t key).elim row update))

/-- `INSERT OR REPLACE`. -/
def replace (row : ρ) : Table κ ρ := Function.update t key (some row)

/-- `INSERT`, which fails where there is a row with that key. -/
def insert (row : ρ) : Option (Table κ ρ) :=
  if (t key).isSome then none else some (Function.update t key (some row))

/-- `UPDATE … WHERE key`. -/
def modify (change : ρ → ρ) : Table κ ρ := Function.update t key ((t key).map change)

/-- `DELETE … WHERE key`. -/
def delete : Table κ ρ := Function.update t key none

variable {t key} {key' : κ} {row : ρ} {update change : ρ → ρ}

lemma upsert_of_none (h : t key = none) : t.upsert key row update key = some row := by
  rw [upsert, Function.update_self, h]
  rfl

lemma upsert_of_some {old : ρ} (h : t key = some old) :
    t.upsert key row update key = some (update old) := by
  rw [upsert, Function.update_self, h]
  rfl

lemma upsert_of_ne (h : key' ≠ key) : t.upsert key row update key' = t key' :=
  Function.update_of_ne h ..

@[simp] lemma replace_self : t.replace key row key = some row := Function.update_self ..

lemma replace_of_ne (h : key' ≠ key) : t.replace key row key' = t key' :=
  Function.update_of_ne h ..

lemma insert_of_none (h : t key = none) : t.insert key row = some (t.replace key row) := by
  rw [insert, h]
  rfl

lemma insert_of_some {old : ρ} (h : t key = some old) : t.insert key row = none := by
  rw [insert, h]
  rfl

@[simp] lemma modify_self : t.modify key change key = (t key).map change := Function.update_self ..

lemma modify_of_ne (h : key' ≠ key) : t.modify key change key' = t key' :=
  Function.update_of_ne h ..

@[simp] lemma delete_self : t.delete key key = none := Function.update_self ..

lemma delete_of_ne (h : key' ≠ key) : t.delete key key' = t key' := Function.update_of_ne h ..

lemma upsert_isSome_iff :
    (t.upsert key row update key').isSome = true ↔ key' = key ∨ (t key').isSome = true := by
  by_cases h : key' = key
  · subst h
    simp [upsert]
  · simp [upsert_of_ne h, h]

end Table
