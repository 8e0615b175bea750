import Mopher.Lib.PartialRun
import Mopher.Lib.PathStore
import Mopher.Var

/-!
# The configuration

Model of the semantic actions of `cf_yacc.y`, of `cf_set_keylist` and of `cf_get`.  A
hash table is the list of its records, the newest first.  A statement puts its value
into the tree; `cf_get` should then see the tree that replaying the statements gives.

`cf_get` looks at the type of each variable before it takes it for a table.
`cf_set_keylist` does not: a key in front of the last one that stands for a number, a
string or a list is read as a hash table.  Such a step is undefined, `none` here.
-/

set_option autoImplicit false

namespace Mopher.Cf

/-- What the token `SCALAR` stands for. -/
inductive Scalar where
  | int (number : Int)
  | float (pattern : UInt64)
  | string (text : Bytes)
  | addr (address : Addr)

/-- A variable of the configuration. -/
inductive Tree where
  | scalar (data : Scalar)
  | list (items : List Tree)
  | table (records : List (String × Tree))

/-- `value` of the grammar. -/
inductive Value where
  | scalar (data : Scalar)
  | constant (name : String)
  | list (items : List Value)
  | table (entries : List (String × Value))

/-- `statement` of the grammar; there is at least one key. -/
structure Statement where
  key : String
  more : List String
  value : Value

/-- A statement whose value is built. -/
structure Assignment where
  key : String
  more : List String
  tree : Tree

def Assignment.path (a : Assignment) : List String := a.key :: a.more

/-! ## Tables -/

def vtableLookup (records : List (String × Tree)) (key : String) : Option Tree := records.lookup key

/-- `vtable_insert`; `none` is -1. -/
def vtableInsert (records : List (String × Tree)) (key : String) (v : Tree) :
    Option (List (String × Tree)) :=
  if (vtableLookup records key).isSome then none else some ((key, v) :: records)

def vtableSet (records : List (String × Tree)) (key : String) (v : Tree) : List (String × Tree) :=
  (key, v) :: records.eraseP fun record => record.1 == key

/-- A record is changed where it is. -/
def vtableModify (records : List (String × Tree)) (key : String) (v : Tree) : List (String × Tree) :=
  records.map fun record => if record.1 = key then (key, v) else record

/-! ## Building values -/

section Build
variable (constants : String → Option Scalar)

mutual

/-- The actions for `value`; `none` is `log_die`, on a name that is no constant and on
a key that a table has twice. -/
def build : Value → Option Tree
  | .scalar data => some (.scalar data)
  | .constant name => (constants name).map .scalar
  | .list items => (buildItems items).map .list
  | .table entries => (buildEntries [] entries).map .table

def buildItems : List Value → Option (List Tree)
  | [] => some []
  | item :: rest =>
      match build item, buildItems rest with
      | some tree, some trees => some (tree :: trees)
      | _, _ => none

def buildEntries (records : List (String × Tree)) : List (String × Value) → Option (List (String × Tree))
  | [] => some records
  | (key, value) :: rest =>
      match build value with
      | none => none
      | some tree =>
          match vtableInsert records key tree with
          | none => none
          | some records => buildEntries records rest

end

def Statement.assignment (s : Statement) : Option Assignment :=
  (build constants s.value).map fun tree => ⟨s.key, s.more, tree⟩

end Build

/-! ## Setting and getting -/

def cfSetKeylist : Tree → List String → Tree → Option Tree
  | .table records, [key], v => some (.table (vtableSet records key v))
  | .table records, key :: next :: keys, v =>
      match vtableLookup records key with
      | some sub =>
          (cfSetKeylist sub (next :: keys) v).map fun sub => .table (vtableModify records key sub)
      | none =>
          (cfSetKeylist (.table []) (next :: keys) v).map fun sub =>
            .table (vtableSet records key sub)
  | _, _, _ => none

/-- What a variable is, without the records of a table. -/
inductive Label where
  | scalar (data : Scalar)
  | list (items : List Tree)
  | table

def Tree.label : Tree → Label
  | .scalar data => .scalar data
  | .list items => .list items
  | .table _ => .table

def Label.type : Label → VarType
  | .scalar (.int _) => .int
  | .scalar (.float _) => .float
  | .scalar (.string _) => .string
  | .scalar (.addr _) => .addr
  | .list _ => .list
  | .table => .table

/-- `vtable_getva` on the keys up to the `NULL`. -/
def vtableGetva (type : VarType) : Tree → List String → Option Tree
  | v, [] => if v.label.type = type then some v else none
  | .table records, key :: rest =>
      match vtableLookup records key with
      | none => none
      | some v => vtableGetva type v rest
  | _, _ :: _ => none

def cfGet (type : VarType) (config : Tree) (path : List String) : Option Tree :=
  vtableGetva type config path

def setStep (config : Tree) (a : Assignment) : Option Tree := cfSetKeylist config a.path a.tree

/-- How reading a configuration ends: it is loaded, `log_die` was called, or something
other than a table was read as one. -/
inductive Outcome where
  | loaded (config : Tree)
  | rejected
  | misread

section Statements
variable (constants : String → Option Scalar)

/-- `cf_parse`, statement by statement. -/
def cfParse (config : Tree) : List Statement → Outcome
  | [] => .loaded config
  | s :: rest =>
      match s.assignment constants with
      | none => .rejected
      | some a =>
          match setStep config a with
          | none => .misread
          | some next => cfParse next rest

/-- The configuration after a statement. -/
def statementStep (config : Tree) (s : Statement) : Option Tree :=
  (s.assignment constants).bind fun a => setStep config a

end Statements

/-! ## The tree of paths -/

/-- The labels of a tree by their paths. -/
def look : Tree → PathStore.Store String Label
  | v, [] => some v.label
  | .table records, key :: rest =>
      match vtableLookup records key with
      | none => none
      | some v => look v rest
  | _, _ :: _ => none

/-- The part of a store that `cf_get` should find. -/
def storeGet (type : VarType) (store : PathStore.Store String Label) (path : List String) :
    Option (PathStore.Store String Label) :=
  match store path with
  | none => none
  | some label => if label.type = type then some (PathStore.below store path) else none

/-- No key in front of the last one stands for something other than a table. -/
def NoDescent (config : Tree) (a : Assignment) : Prop :=
  ∀ front, front <+: a.path → front ≠ a.path → ∀ label, look config front = some label →
    label = .table

section Statements
variable (constants : String → Option Scalar)

/-- The store after the statements. -/
def replayed (config : Tree) (statements : List Statement) : PathStore.Store String Label :=
  PathStore.replay .table (look config)
    ((statements.filterMap (Statement.assignment constants)).map fun a => (a.path, look a.tree))

/-- The same for a statement whose value is accepted. -/
def StatementFits (config : Tree) (s : Statement) : Prop :=
  ∀ a, s.assignment constants = some a → NoDescent config a

end Statements

/-! ## Lookups after a change -/

theorem vtableLookup_vtableSet (records : List (String × Tree)) (key probe : String) (v : Tree) :
    vtableLookup (vtableSet records key v) probe =
      if probe = key then some v else vtableLookup records probe := by
  unfold vtableLookup vtableSet
  by_cases same : probe = key
  · subst same
    simp
  · have beside : (probe == key) = false := beq_eq_false_iff_ne.mpr same
    rw [List.lookup_cons, beside, if_neg same]
    -- only records of another name are left out
    induction records with
    | nil => rfl
    | cons record records ih =>
        by_cases here : record.1 = key
        · have skipped : (probe == record.1) = false := by
            rw [here]
            exact beside
          rw [List.eraseP_cons_of_pos (by simpa using here), List.lookup_cons, skipped]
        · rw [List.eraseP_cons_of_neg (by simpa using here), List.lookup_cons, List.lookup_cons]
          cases probe == record.1 with
          | true => rfl
          | false => exact ih

theorem vtableLookup_vtableModify {records : List (String × Tree)} {key : String} {sub : Tree}
    (found : vtableLookup records key = some sub) (probe : String) (v : Tree) :
    vtableLookup (vtableModify records key v) probe =
      if probe = key then some v else vtableLookup records probe := by
  unfold vtableLookup vtableModify at *
  induction records with
  | nil => cases found
  | cons record records ih =>
      obtain ⟨name, tree⟩ := record
      rw [List.lookup_cons] at found
      by_cases here : name = key
      · subst here
        simp only [List.map_cons, if_true, List.lookup_cons]
        by_cases same : probe = name
        · subst same
          simp
        · have beside : (probe == name) = false := beq_eq_false_iff_ne.mpr same
          simp only [beside, if_neg same]
          -- further records of the name are not found
          clear ih found
          induction records with
          | nil => rfl
          | cons record records ih =>
              obtain ⟨name', tree'⟩ := record
              by_cases again : name' = name
              · subst again
                simp only [List.map_cons, if_true, List.lookup_cons, beside]
                exact ih
              · simp only [List.map_cons, again, if_false, List.lookup_cons]
                cases probe == name' with
                | true => rfl
                | false => exact ih
      · have missed : (key == name) = false := beq_eq_false_iff_ne.mpr (Ne.symm here)
        rw [missed] at found
        simp only [List.map_cons, here, if_false, List.lookup_cons]
        by_cases hit : probe = name
        · subst hit
          simp [here]
        · have beside : (probe == name) = false := beq_eq_false_iff_ne.mpr hit
          simp only [beside]
          exact ih found

theorem look_table (records : List (String × Tree)) (key : String) (rest : List String) :
    look (.table records) (key :: rest) = (vtableLookup records key).bind fun v => look v rest := by
  rw [look]
  cases vtableLookup records key <;> rfl

theorem below_table {records : List (String × Tree)} {key : String} {sub : Tree}
    (found : vtableLookup records key = some sub) :
    PathStore.below (look (.table records)) [key] = look sub := by
  funext rest
  simp only [PathStore.below, List.singleton_append, look_table, found, Option.bind_some]

/-- `cf_get` finds the part of the tree that has the type. -/
theorem vtableGetva_look (type : VarType) (path : List String) : ∀ v : Tree,
    (vtableGetva type v path).map look = storeGet type (look v) path := by
  induction path with
  | nil =>
      intro v
      have whole : PathStore.below (look v) [] = look v := rfl
      simp only [vtableGetva, storeGet, look, whole]
      split
      · rfl
      · rfl
  | cons key rest ih =>
      intro v
      cases v with
      | scalar data => rfl
      | list items => rfl
      | table records =>
          simp only [vtableGetva, storeGet, look_table]
          cases found : vtableLookup records key with
          | none => rfl
          | some sub =>
              have same : PathStore.below (look (.table records)) (key :: rest) =
                  PathStore.below (look sub) rest := by
                funext more
                simp only [PathStore.below, List.cons_append, look_table, found, Option.bind_some]
              simp only [Option.bind_some, same]
              exact ih sub

/-! ## One assignment -/

theorem look_vtableSet (records : List (String × Tree)) (key : String) (v : Tree)
    (probe : String) (rest : List String) :
    look (.table (vtableSet records key v)) (probe :: rest) =
      if probe = key then look v rest else look (.table records) (probe :: rest) := by
  rw [look_table, look_table, vtableLookup_vtableSet]
  split
  · rfl
  · rfl

/-- `cf_set_keylist` replaces the subtree at the path, makes the tables on the way and
leaves the rest alone. -/
theorem look_cfSetKeylist (path : List String) : ∀ {config next : Tree} {v : Tree},
    cfSetKeylist config path v = some next →
      look next = PathStore.assign .table (look config) path (look v) := by
  induction path with
  | nil =>
      intro config next v set
      cases config <;> cases set
  | cons key keys ih =>
      intro config next v set
      cases config with
      | scalar data => cases keys <;> cases set
      | list items => cases keys <;> cases set
      | table records =>
          funext probe
          cases keys with
          | nil =>
              cases set
              cases probe with
              | nil => rw [PathStore.assign_cons_nil]; rfl
              | cons probe rest =>
                  rw [PathStore.assign_cons_cons, PathStore.assign_root, look_vtableSet]
          | cons key' keys =>
              rw [cfSetKeylist] at set
              cases found : vtableLookup records key with
              | none =>
                  rw [found] at set
                  obtain ⟨sub, inner, rfl⟩ := Option.map_eq_some_iff.mp set
                  cases probe with
                  | nil => rw [PathStore.assign_cons_nil]; rfl
                  | cons probe rest =>
                      -- a new table has nothing in it, like the missing one
                      have same : PathStore.assign .table (look (.table [])) (key' :: keys) (look v) =
                          PathStore.assign .table (PathStore.below (look (.table records)) [key])
                            (key' :: keys) (look v) := by
                        refine PathStore.assign_congr (by simp) ?_
                        intro step rest
                        simp only [PathStore.below, List.singleton_append, look_table, found]
                        rfl
                      rw [PathStore.assign_cons_cons, look_vtableSet, ih inner, same]
              | some sub =>
                  rw [found] at set
                  obtain ⟨sub', inner, rfl⟩ := Option.map_eq_some_iff.mp set
                  cases probe with
                  | nil => rw [PathStore.assign_cons_nil]; rfl
                  | cons probe rest =>
                      rw [PathStore.assign_cons_cons, below_table found, ← ih inner, look_table,
                        look_table, vtableLookup_vtableModify found]
                      split
                      · rfl
                      · rfl

/-! ## Descending -/

theorem noDescent_last {config : Tree} {key : String} {tree : Tree} :
    NoDescent config ⟨key, [], tree⟩ ↔ config.label = .table := by
  constructor
  · intro clean
    exact clean [] (List.nil_prefix) (by simp [Assignment.path]) config.label (by rw [look])
  · intro table front before proper label found
    have root : front = [] := by
      rcases List.prefix_cons_iff.mp before with rfl | ⟨rest, rfl, inside⟩
      · rfl
      · rw [List.prefix_nil.mp inside] at proper
        exact (proper rfl).elim
    subst root
    rw [look] at found
    cases found
    exact table

theorem noDescent_step {records : List (String × Tree)} {key next : String} {more : List String}
    {tree : Tree} :
    NoDescent (.table records) ⟨key, next :: more, tree⟩ ↔
      ∀ sub, vtableLookup records key = some sub → NoDescent sub ⟨next, more, tree⟩ := by
  constructor
  · intro clean sub found front before proper label here
    refine clean (key :: front) ?_ ?_ label ?_
    · exact List.cons_prefix_cons.mpr ⟨rfl, before⟩
    · intro same
      exact proper (List.cons.inj same).2
    · rw [look_table, found]
      exact here
  · intro clean front before proper label here
    rcases List.prefix_cons_iff.mp before with rfl | ⟨rest, rfl, inside⟩
    · rw [look] at here
      cases here
      rfl
    · rw [look_table] at here
      obtain ⟨sub, found, here⟩ := Option.bind_eq_some_iff.mp here
      refine clean sub found rest inside ?_ label here
      rintro rfl
      exact proper rfl

/-- `cf_set_keylist` is defined exactly when it comes through tables only. -/
theorem cfSetKeylist_isSome_iff (more : List String) : ∀ (config : Tree) (key : String) (v : Tree),
    (cfSetKeylist config (key :: more) v).isSome = true ↔ NoDescent config ⟨key, more, v⟩ := by
  induction more with
  | nil =>
      intro config key v
      rw [noDescent_last]
      cases config with
      | scalar data => exact iff_of_false (by simp [cfSetKeylist]) (by simp [Tree.label])
      | list items => exact iff_of_false (by simp [cfSetKeylist]) (by simp [Tree.label])
      | table records => exact iff_of_true rfl rfl
  | cons next more ih =>
      intro config key v
      have root (clean : NoDescent config ⟨key, next :: more, v⟩) : config.label = .table :=
        clean [] (List.nil_prefix) (by simp [Assignment.path]) config.label (by rw [look])
      cases config with
      | scalar data => exact iff_of_false (by simp [cfSetKeylist]) fun clean => by cases root clean
      | list items => exact iff_of_false (by simp [cfSetKeylist]) fun clean => by cases root clean
      | table records =>
          rw [noDescent_step, cfSetKeylist]
          cases found : vtableLookup records key with
          | none =>
              have fresh : NoDescent (.table []) ⟨next, more, v⟩ := by
                cases more with
                | nil => exact noDescent_last.mpr rfl
                | cons next' more =>
                    rw [noDescent_step]
                    intro sub impossible
                    cases impossible
              simp only [Option.isSome_map]
              exact iff_of_true ((ih (.table []) next v).mpr fresh) fun _ impossible => by cases impossible
          | some sub =>
              simp only [Option.isSome_map, Option.some.injEq, forall_eq']
              exact ih sub next v

/-! ## Sequences of statements -/

theorem setStep_isSome_iff (config : Tree) (a : Assignment) :
    (setStep config a).isSome = true ↔ NoDescent config a :=
  cfSetKeylist_isSome_iff a.more config a.key a.tree

section Statements
variable (constants : String → Option Scalar)

/-- A configuration that was loaded holds what replaying its statements gives. -/
theorem look_loaded (statements : List Statement) : ∀ {config final : Tree},
    cfParse constants config statements = .loaded final →
      look final = replayed constants config statements := by
  induction statements with
  | nil =>
      intro config final parsed
      cases parsed
      rfl
  | cons s statements ih =>
      intro config final parsed
      rw [cfParse] at parsed
      cases accepted : s.assignment constants with
      | none =>
          rw [accepted] at parsed
          cases parsed
      | some a =>
          simp only [accepted] at parsed
          cases stepped : setStep config a with
          | none =>
              rw [stepped] at parsed
              cases parsed
          | some next =>
              simp only [stepped] at parsed
              rw [ih parsed]
              unfold replayed
              rw [look_cfSetKeylist a.path stepped, List.filterMap_cons_some accepted]
              rfl

theorem cfParse_misread_iff (statements : List Statement) : ∀ config : Tree,
    cfParse constants config statements ≠ .misread ↔
      PartialRun.EachStep (statementStep constants) (StatementFits constants) config statements := by
  induction statements with
  | nil =>
      intro config
      exact iff_of_true (fun impossible => by cases impossible) (PartialRun.eachStep_nil _ _ config)
  | cons s statements ih =>
      intro config
      rw [cfParse]
      cases accepted : s.assignment constants with
      | none =>
          have stuck : statementStep constants config s = none := by
            rw [statementStep, accepted]
            rfl
          rw [PartialRun.eachStep_cons_stuck _ stuck]
          refine iff_of_true (fun impossible => by cases impossible) ?_
          intro a impossible
          rw [accepted] at impossible
          cases impossible
      | some a =>
          have fits : StatementFits constants config s ↔ (setStep config a).isSome = true := by
            rw [setStep_isSome_iff]
            unfold StatementFits
            rw [accepted]
            simp only [Option.some.injEq, forall_eq']
          have step : statementStep constants config s = setStep config a := by
            rw [statementStep, accepted]
            rfl
          simp only []
          cases stepped : setStep config a with
          | none =>
              rw [stepped] at step fits
              rw [PartialRun.eachStep_cons_stuck _ step, fits]
              simp
          | some next =>
              rw [stepped] at step fits
              rw [PartialRun.eachStep_cons _ step, fits, ih next]
              simp

/-- A configuration never has a scalar or a list read as a table, and once loaded
`cf_get` sees what replaying the statements gives, exactly when no statement has a key
in front of the last one that stands for a scalar or a list by then. -/
theorem configuration_replays_iff (config : Tree) (statements : List Statement) :
    (cfParse constants config statements ≠ .misread ∧
        ∀ final, cfParse constants config statements = .loaded final → ∀ type path,
          (cfGet type final path).map look =
            storeGet type (replayed constants config statements) path) ↔
      PartialRun.EachStep (statementStep constants) (StatementFits constants) config statements := by
  rw [← cfParse_misread_iff]
  constructor
  · rintro ⟨defined, _⟩
    exact defined
  · intro defined
    refine ⟨defined, ?_⟩
    intro final parsed type path
    rw [cfGet, vtableGetva_look, look_loaded constants statements parsed]

end Statements

/-- `cache = 1`, then `cache[size] = 2`: the number is read as a table. -/
theorem number_is_read_as_a_table :
    cfParse (fun _ => none) (.table [])
        [⟨"cache", [], .scalar (.int 1)⟩, ⟨"cache", ["size"], .scalar (.int 2)⟩] = .misread ∧
    cfParse (fun _ => none) (.table [])
        [⟨"cache", [], .scalar (.int 1)⟩, ⟨"cache", ["size"], .scalar (.int 2)⟩] ≠ .rejected := by
  constructor
  · rfl
  · exact fun impossible => by cases impossible

end Mopher.Cf
