import Mopher.Lib.SqlText
import Mathlib.Data.List.Nodup

/-!
# What SQL statements do to a table

A table is the list of its rows, in the order in which they are stored.  A comparison with
`NULL` is never true.  How values are added and which are below a limit is up to the
database.

Rows that have a key of their own are a map from keys to rows; what the statements do to
the list is said for the map.
-/

set_option autoImplicit false

namespace Mopher.SqlText

abbrev Row := List UInt8 → Value

/-- What the database computes. -/
structure Arithmetic where
  plus : Value → Value → Value
  below : Value → List UInt8 → Bool

section Meaning
variable (arithmetic : Arithmetic)

/-- The right side of an equation. -/
def Equation.side (e : Equation) (row : Row) : Value :=
  if e.added then arithmetic.plus (row e.column) e.value else e.value

def Equation.holds (e : Equation) (row : Row) : Bool :=
  row e.column = e.side arithmetic row && e.side arithmetic row ≠ .null

def matching (where_ : List Equation) (row : Row) : Bool := where_.all fun e => e.holds arithmetic row

/-- All sides are taken from the row as it was. -/
def assign (set : List Equation) (row : Row) : Row := fun c =>
  match set.find? (·.column = c) with
  | none => row c
  | some e => e.side arithmetic row

/-- Columns that are not given are `NULL`. -/
def newRow (columns : List (List UInt8)) (values : List Value) : Row := fun c =>
  ((columns.zip values).find? (·.1 = c)).elim .null (·.2)

/-- Two rows may not have the same key, unless there is a `NULL` in it. -/
def clashes (keys : List (List UInt8)) (a b : Row) : Bool := keys.all fun c => a c = b c && a c ≠ .null

/-- The rows that are left, what is selected, and how many rows were changed; there is no result
when the statement is refused. -/
def execute (name : List UInt8) (keys : List (List UInt8)) (rows : List Row) :
    Statement → Option (List Row × List (List Value) × Nat)
  | .insert table columns values =>
      if table ≠ name ∨ rows.any (clashes keys (newRow columns values)) then none
      else some (rows ++ [newRow columns values], [], 1)
  | .update table set where_ =>
      if table ≠ name then none
      else
        some (rows.map fun row => if matching arithmetic where_ row then assign arithmetic set row else row, [],
          (rows.filter (matching arithmetic where_)).length)
  | .select columns table where_ =>
      if table ≠ name then none
      else some (rows, (rows.filter (matching arithmetic where_)).map fun row => columns.map row, 0)
  | .delete table where_ =>
      if table ≠ name then none
      else
        some (rows.filter (fun row => !matching arithmetic where_ row), [],
          (rows.filter (matching arithmetic where_)).length)
  | .deleteBelow table column limit =>
      if table ≠ name then none
      else
        some (rows.filter (fun row => !arithmetic.below (row column) limit), [],
          (rows.filter fun row => arithmetic.below (row column) limit).length)
  | .create _ _ _ => none

end Meaning

/-! ## Rows with keys of their own -/

section Keyed
variable {α κ : Type} [DecidableEq κ] (key : α → κ) {rows : List α} {k : κ}

/-- The row with this key. -/
def rowOf (rows : List α) (k : κ) : Option α := rows.find? fun row => key row = k

theorem key_of_rowOf {row : α} (found : rowOf key rows k = some row) : key row = k := by
  have same := List.find?_some found
  simpa using same

theorem rowOf_mem {row : α} (found : rowOf key rows k = some row) : row ∈ rows := List.mem_of_find?_eq_some found

theorem rowOf_none : rowOf key rows k = none ↔ k ∉ rows.map key := by
  rw [rowOf, List.find?_eq_none]
  simp only [decide_eq_true_eq, List.mem_map, not_exists, not_and]

/-- A row is found under its key when no other row has it. -/
theorem rowOf_key (unique : (rows.map key).Nodup) {row : α} (inside : row ∈ rows) :
    rowOf key rows (key row) = some row := by
  induction rows with
  | nil => exact absurd inside List.not_mem_nil
  | cons first rest ih =>
      rw [List.map_cons, List.nodup_cons] at unique
      rw [rowOf, List.find?_cons]
      rcases List.mem_cons.mp inside with rfl | later
      · simp
      · have apart : key first ≠ key row := by
          intro same
          exact unique.1 (same ▸ List.mem_map_of_mem later)
        simp only [decide_eq_false apart]
        exact ih unique.2 later

theorem rowOf_append_new {new : α} :
    rowOf key (rows ++ [new]) k = (rowOf key rows k).or (if key new = k then some new else none) := by
  rw [rowOf, List.find?_append]
  by_cases same : key new = k <;> simp [rowOf, same]

omit [DecidableEq κ] in
theorem nodup_append_new {new : α} (unique : (rows.map key).Nodup) (fresh : key new ∉ rows.map key) :
    ((rows ++ [new]).map key).Nodup := by
  rw [List.map_append, List.nodup_append]
  refine ⟨unique, by simp, ?_⟩
  intro a inside b last same
  rw [List.map_singleton, List.mem_singleton] at last
  exact fresh (last ▸ same ▸ inside)

/-- What keeps the keys changes the row that is found. -/
theorem rowOf_map {f : α → α} (keeps : ∀ row ∈ rows, key (f row) = key row) :
    rowOf key (rows.map f) k = (rowOf key rows k).map f := by
  induction rows with
  | nil => rfl
  | cons first rest ih =>
      have here := keeps first List.mem_cons_self
      have later := ih fun row inside => keeps row (List.mem_cons_of_mem first inside)
      simp only [rowOf, List.map_cons, List.find?_cons, here] at later ⊢
      by_cases same : key first = k <;> simp [same, later]

omit [DecidableEq κ] in
theorem map_key_map {f : α → α} (keeps : ∀ row ∈ rows, key (f row) = key row) :
    (rows.map f).map key = rows.map key := by
  rw [List.map_map]
  exact List.map_congr_left keeps

theorem rowOf_filter (unique : (rows.map key).Nodup) (keep : α → Bool) :
    rowOf key (rows.filter keep) k = (rowOf key rows k).filter keep := by
  induction rows with
  | nil => rfl
  | cons first rest ih =>
      rw [List.map_cons, List.nodup_cons] at unique
      have later := ih unique.2
      by_cases same : key first = k
      · have absent : rowOf key rest k = none := (rowOf_none key).mpr (same ▸ unique.1)
        rw [absent] at later
        have here : rowOf key (first :: rest) k = some first := by simp [rowOf, same]
        rw [here]
        by_cases kept : keep first = true
        · rw [List.filter_cons_of_pos kept]
          simp [rowOf, same, Option.filter, kept]
        · rw [List.filter_cons_of_neg kept, later]
          simp [Option.filter, kept]
      · have past : rowOf key (first :: rest) k = rowOf key rest k := by simp [rowOf, same]
        rw [past, ← later]
        by_cases kept : keep first = true
        · rw [List.filter_cons_of_pos kept]
          simp [rowOf, same]
        · rw [List.filter_cons_of_neg kept]

omit [DecidableEq κ] in
theorem nodup_filter (unique : (rows.map key).Nodup) (keep : α → Bool) :
    ((rows.filter keep).map key).Nodup :=
  unique.sublist (List.filter_sublist.map key)

/-- At most one row has a key. -/
theorem filter_key (unique : (rows.map key).Nodup) :
    (rows.filter fun row => key row = k) = (rowOf key rows k).toList := by
  induction rows with
  | nil => rfl
  | cons first rest ih =>
      rw [List.map_cons, List.nodup_cons] at unique
      have later := ih unique.2
      by_cases same : key first = k
      · have absent : rowOf key rest k = none := (rowOf_none key).mpr (same ▸ unique.1)
        rw [absent] at later
        simp [rowOf, same, later]
      · simp only [rowOf] at later
        simp [rowOf, same, later]

end Keyed

end Mopher.SqlText
