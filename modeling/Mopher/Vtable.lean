import Mopher.Var

/-!
# The symbol table of a mailspec

`vtable.c` keeps named variables in a hash table.  Here a table is the finite
map it represents: a name is bound to the value of its variable, and a bound
name may still have `NULL` data.
-/

set_option autoImplicit false

namespace Mopher

abbrev Table := String → Option Value

def vtableLookup (table : Table) (name : String) : Option Value := table name

/-- `vtable_get` returns `v_data`, so a bound name with `NULL` data and an
unbound name look alike. -/
def vtableGet (table : Table) (name : String) : Option Value :=
  match table name with
  | none => none
  | some v => if v.isNull then none else some v

def vtableSet (table : Table) (name : String) (value : Value) : Table :=
  Function.update table name (some value)

/-- `vtable_setv` stores its arguments from left to right. -/
def vtableSetv (table : Table) : List (String × Value) → Table
  | [] => table
  | (name, value) :: rest => vtableSetv (vtableSet table name value) rest

def vtableRemove (table : Table) (name : String) : Table :=
  Function.update table name none

def vtableSetNull (table : Table) (name : String) : Table :=
  vtableSet table name (.nil .int)

/-- `vtable_rename`; `none` is the return value -1. -/
def vtableRename (table : Table) (old new : String) : Option Table :=
  match table old with
  | none => none
  | some v => some (vtableRemove (vtableSet table new v) old)

/-- `vtable_list_append_new`.  A name bound to something that is not a list is
a `NULL` or a stray pointer for `ll_insert_tail`; no table results then. -/
def vtableListAppendNew (table : Table) (name : String) (item : Value) : Option Table :=
  match table name with
  | none => some (vtableSet table name (.list [some item]))
  | some (.list items) => some (vtableSet table name (.list (items ++ [some item])))
  | some _ => none

@[simp] theorem vtableSet_same (table : Table) (name : String) (value : Value) :
    vtableSet table name value name = some value := by
  simp [vtableSet]

@[simp] theorem vtableSet_other (table : Table) (name other : String) (value : Value)
    (distinct : other ≠ name) : vtableSet table name value other = table other := by
  simp [vtableSet, distinct]

@[simp] theorem vtableRemove_same (table : Table) (name : String) :
    vtableRemove table name name = none := by
  simp [vtableRemove]

@[simp] theorem vtableRemove_other (table : Table) (name other : String)
    (distinct : other ≠ name) : vtableRemove table name other = table other := by
  simp [vtableRemove, distinct]

theorem vtableSetv_other (entries : List (String × Value)) : ∀ (table : Table) (name : String),
    name ∉ entries.map Prod.fst → vtableSetv table entries name = table name := by
  induction entries with
  | nil => intro table name _; rfl
  | cons entry rest ih =>
      intro table name absent
      simp only [List.map_cons, List.mem_cons, not_or] at absent
      rw [vtableSetv, ih _ name absent.2, vtableSet_other _ _ _ _ absent.1]

theorem vtableSetv_isSome (entries : List (String × Value)) : ∀ (table : Table) (name : String),
    (vtableSetv table entries name).isSome = true ↔
      name ∈ entries.map Prod.fst ∨ (table name).isSome = true := by
  induction entries with
  | nil => intro table name; simp [vtableSetv]
  | cons entry rest ih =>
      intro table name
      rw [vtableSetv, ih]
      by_cases same : name = entry.1
      · simp [same]
      · simp [same]

/-- Two tables that agree on a name agree on it after the same assignments. -/
theorem vtableSetv_congr (entries : List (String × Value)) : ∀ (table other : Table) (name : String),
    table name = other name → vtableSetv table entries name = vtableSetv other entries name := by
  induction entries with
  | nil => intro table other name agree; exact agree
  | cons entry rest ih =>
      intro table other name agree
      apply ih
      by_cases same : name = entry.1
      · simp [same]
      · simp [same, agree]

end Mopher
