import Mopher.Stage

/-!
# ACL symbols and the database

Model of `acl_symbol_get` of `acl.c` and of `dbt_db_get_from_table` and
`dbt_db_load_into_table` of `dbt.c`.

`acl_symbol_get` is used with two kinds of state, one that keeps values and one
that keeps pointers to them, so it is stated for any state in which a name can
be looked up, set to `NULL` and changed by a callback.
-/

set_option autoImplicit false

namespace Mopher

/-- What `acl_symbol_get` needs of a mailspec.  `A` is what a symbol evaluates
to: a value, or the address of one. -/
structure MailspecOps (S A : Type) where
  lookup : S → String → Option A
  setNull : S → String → S
  stage : S → Option StageMask

/-- A registered symbol: `acl_symbol_t` with its stages.  A callback returns
whether it succeeded. -/
inductive AclSymbol (S A : Type) where
  | constant (stages : StageMask) (value : A)
  | symbol (stages : StageMask) (callback : Option (StageMask → String → S → S × Bool))
      (noCache : Bool)
  | other (stages : StageMask)

def AclSymbol.stages {S A : Type} : AclSymbol S A → StageMask
  | .constant stages _ => stages
  | .symbol stages _ _ => stages
  | .other stages => stages

section Get
variable {S A : Type} (ops : MailspecOps S A)

/-- The second half of `acl_symbol_get`: the symbol is computed. -/
def symbolCompute (callback : Option (StageMask → String → S → S × Bool)) (stage : StageMask)
    (s : S) (name : String) : S × Option A :=
  match callback with
  | none => (ops.setNull s name, ops.lookup (ops.setNull s name) name)
  | some run =>
      let (s, ok) := run stage name s
      (s, if ok then ops.lookup s name else none)

/-- `acl_symbol_get`; `none` is a null pointer. -/
def aclSymbolGet (registry : String → Option (AclSymbol S A)) (s : S) (name : String) :
    S × Option A :=
  match registry name, ops.stage s with
  | none, _ => (s, none)
  | some _, none => (s, none)
  | some entry, some stage =>
      if entry.stages &&& stage = 0 then (s, none)
      else
        match entry with
        | .constant _ value => (s, some value)
        | .other _ => (s, none)
        | .symbol _ callback noCache =>
            match (if noCache then none else ops.lookup s name) with
            | some found => (s, some found)
            | none => symbolCompute ops callback stage s name

/-- A symbol that is available is taken from the cache or computed. -/
theorem aclSymbolGet_symbol {registry : String → Option (AclSymbol S A)} {s : S} {name : String}
    {stages stage : StageMask} {callback : Option (StageMask → String → S → S × Bool)}
    {noCache : Bool} (entry : registry name = some (.symbol stages callback noCache))
    (at' : ops.stage s = some stage) (available : stages &&& stage ≠ 0) :
    aclSymbolGet ops registry s name =
      match (if noCache then none else ops.lookup s name) with
      | some found => (s, some found)
      | none => symbolCompute ops callback stage s name := by
  simp only [aclSymbolGet, entry, at']
  exact if_neg available

end Get

/-- A table of the database: its key fields, its other fields, and the record
stored under given keys. -/
structure Dbt where
  keys : List String
  fields : List String
  find : List Value → Option (List Value)

/-- The key values that `dbt_db_get_from_table` takes from the mailspec. -/
def keyValues (table : Table) : List String → Option (List Value)
  | [] => some []
  | key :: rest => do
      let value ← vtableGet table key
      let values ← keyValues table rest
      return value :: values

/-- `dbt_db_get_from_table`; the outer `none` is the return value -1. -/
def dbtDbGetFromTable (dbt : Dbt) (table : Table) : Option (Option (List Value)) :=
  (keyValues table dbt.keys).map dbt.find

/-- The assignment in the loop of `dbt_db_load_into_table`: existing data is not
overwritten. -/
def loadField (table : Table) (entry : String × Value) : Table :=
  if (vtableGet table entry.1).isSome then table else vtableSet table entry.1 entry.2

/-- `dbt_db_load_into_table`; `none` is the return value -1. -/
def dbtDbLoadIntoTable (dbt : Dbt) (table : Table) : Option Table :=
  (dbtDbGetFromTable dbt table).map fun record =>
    let values := record.getD (dbt.fields.map fun _ => .nil .int)
    (dbt.fields.zip values).foldl loadField table

theorem loadField_other (table : Table) (entry : String × Value) {name : String}
    (distinct : name ≠ entry.1) : loadField table entry name = table name := by
  unfold loadField
  split
  · rfl
  · exact vtableSet_other _ _ _ _ distinct

theorem foldl_loadField_other (entries : List (String × Value)) : ∀ (table : Table) (name : String),
    name ∉ entries.map Prod.fst → entries.foldl loadField table name = table name := by
  induction entries with
  | nil => intro table name _; rfl
  | cons entry rest ih =>
      intro table name absent
      simp only [List.map_cons, List.mem_cons, not_or] at absent
      rw [List.foldl_cons, ih _ name absent.2, loadField_other table entry absent.1]

/-- What loading leaves under one of the fields. -/
theorem foldl_loadField (entries : List (String × Value)) : ∀ (table : Table) (name : String),
    (entries.map Prod.fst).Nodup → name ∈ entries.map Prod.fst →
    entries.foldl loadField table name =
      if (vtableGet table name).isSome then table name else entries.lookup name := by
  induction entries with
  | nil => intro table name _ member; cases member
  | cons entry rest ih =>
      intro table name distinct member
      obtain ⟨key, value⟩ := entry
      simp only [List.map_cons, List.nodup_cons] at distinct
      rw [List.foldl_cons]
      by_cases same : name = key
      · subst same
        rw [foldl_loadField_other rest _ name distinct.1, List.lookup_cons_self]
        unfold loadField
        split
        · rfl
        · exact vtableSet_same _ _ _
      · have later : name ∈ rest.map Prod.fst := by simpa [same] using member
        have kept := loadField_other table (key, value) same
        have keptGet : vtableGet (loadField table (key, value)) name = vtableGet table name := by
          simp only [vtableGet, kept]
        have skipped : ((key, value) :: rest).lookup name = rest.lookup name := by
          rw [List.lookup_cons, beq_false_of_ne same]
        rw [ih _ name distinct.2 later, keptGet, kept, skipped]

end Mopher
