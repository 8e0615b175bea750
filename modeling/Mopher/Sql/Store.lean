import Mopher.Sql.Statement
import Mopher.Lib.SqlTable

/-!
# Records in a database

Model of `sql_db_get`, `sql_db_set`, `sql_db_del`, `sql_db_expire` and `sql_db_walk` on a
table of a database that does what SQL reads in a statement; it has no failures of its
own.  `sql_db_walk` calls its callback for each row until one is refused.

The store is compared with a map from keys to rows.  A key is what the key fields look
like in SQL.
-/

set_option autoImplicit false

namespace Mopher.Sql

open SqlText (Row rowOf)

/-- A table with the driver, and what a pointer to the text of a column has in front of it. -/
structure Store where
  libc : Libc
  pton : Pton
  arithmetic : SqlText.Arithmetic
  name : Bytes
  scheme : List Item
  front : Bytes → Bytes

section Model
variable (db : Store)

def Store.keys : List Bytes := (keysOf db.scheme).map (·.column)

/-- `sql_exec`: what is left of the table, the rows that are selected, and `affected`. -/
def sqlExec (rows : List Row) (stmt : Bytes) : Option (List Row × List (List SqlText.Value) × Nat) :=
  (SqlText.read stmt).bind (SqlText.execute db.arithmetic db.name db.keys rows)

/-- What `sql_get_value` returns for a column. -/
def Store.columnOf : SqlText.Value → Column
  | .null => ⟨none, []⟩
  | .string text => ⟨some text, db.front text⟩

/-- `sql_unpack` of a row. -/
def Store.unpack (values : List SqlText.Value) : Option (List Value) :=
  sqlUnpack db.libc db.pton (db.scheme.map fun v => ⟨v.value.type, v.key⟩) (values.map db.columnOf)

/-- The status and the record.  `lite_exec` says that there is one tuple, whatever their number. -/
def sqlDbGet (junk : Junk) (rows : List Row) (lookup : List Item) : Int × Option (List Value) :=
  match sqlSelect db.libc lite junk bufLen db.name lookup with
  | none => (-1, none)
  | some query =>
      match sqlExec db rows query with
      | none => (-1, none)
      | some (_, [], _) => (0, none)
      | some (_, row :: _, _) =>
          match db.unpack row with
          | none => (-1, none)
          | some record => (0, some record)

/-- `sql_db_set`: a rollback leaves the table as it was.  An `INSERT` that fails is followed by
another attempt if database errors are fatal. -/
def sqlDbSetRows (junk : Junk) (rows : List Row) (record : List Item) (hack : Int × List Row) :
    Int × List Row :=
  match sqlUpdate db.libc lite junk bufLen db.name record with
  | none => (-1, rows)
  | some query =>
      match sqlExec db rows query with
      | none => (-1, rows)
      | some (updated, _, affected) =>
          if affected ≠ 0 then (0, updated)
          else
            match sqlInsert db.libc lite junk bufLen db.name record with
            | none => (-1, rows)
            | some query =>
                match sqlExec db updated query with
                | none => hack
                | some (inserted, _, affected) => if affected ≠ 1 then (-1, rows) else (0, inserted)

def sqlDbDelRows (junk : Junk) (rows : List Row) (record : List Item) : Int × List Row :=
  match sqlDelete db.libc lite junk bufLen db.name record with
  | none => (-1, rows)
  | some query =>
      match sqlExec db rows query with
      | none => (-1, rows)
      | some (left, _, _) => (0, left)

/-- `sql_db_expire`, which returns how many rows it deletes. -/
def sqlDbExpireRows (rows : List Row) (expire : Bytes) (now : Nat) : Int × List Row :=
  match sqlCleanup lite bufLen db.name expire now with
  | none => (-1, rows)
  | some query =>
      match sqlExec db rows query with
      | none => (-1, rows)
      | some (left, _, affected) => (affected, left)

end Model

/-! ## Calls on a store -/

/-- The calls, with what is on the stack of each. -/
inductive StoreCall where
  | get (junk : Junk) (lookup : List Item)
  | set (junk : Junk) (record : List Item) (hack : Int × List Row)
  | del (junk : Junk) (record : List Item)
  | expire (column : Bytes) (now : Nat)

/-- What a call returns. -/
abbrev StoreAnswer := Int × Option (List Value)

section Runs
variable (db : Store)

def storeStep (rows : List Row) : StoreCall → StoreAnswer × List Row
  | .get junk lookup => (sqlDbGet db junk rows lookup, rows)
  | .set junk record hack =>
      let done := sqlDbSetRows db junk rows record hack
      ((done.1, none), done.2)
  | .del junk record =>
      let done := sqlDbDelRows db junk rows record
      ((done.1, none), done.2)
  | .expire column now =>
      let done := sqlDbExpireRows db rows column now
      ((done.1, none), done.2)

def storeRun : List Row → List StoreCall → List StoreAnswer × List Row
  | rows, [] => ([], rows)
  | rows, call :: calls =>
      let done := storeStep db rows call
      let behind := storeRun done.2 calls
      (done.1 :: behind.1, behind.2)

end Runs

/-! ## The map -/

abbrev Key := List SqlText.Value

abbrev Rows := Key → Option Row

section Spec
variable (db : Store)

def Store.keyOfRow (row : Row) : Key := db.keys.map row

def Store.keyOf (record : List Item) : Key := (keysOf record).map (·.datum db.libc)

/-- The statement can be written. -/
def Store.Fits (request : Request) : Prop :=
  request.Writable db.libc ∧ (request.statement db.libc).print.length < bufLen

/-- A record of the scheme: the names and the keys are those of the scheme, and no key is null. -/
structure OfScheme (record : List Item) : Prop where
  fields : record.map (fun v => (v.name, v.key)) = db.scheme.map fun v => (v.name, v.key)
  present : ∀ v ∈ keysOf record, v.value.isNull = false ∧ v.safeUpdate = false

/-- A scheme with keys and other fields, no two of which have the same name. -/
structure Store.Sound : Prop where
  keys : keysOf db.scheme ≠ []
  values : valuesOf db.scheme ≠ []
  names : (db.scheme.map (·.column)).Nodup

/-- The row of a record that is new. -/
def Store.fresh (record : List Item) : Row :=
  SqlText.newRow (record.map (·.column)) (record.map (·.datum db.libc))

/-- A row after an update. -/
def Store.updated (record : List Item) (row : Row) : Row :=
  SqlText.assign db.arithmetic ((valuesOf record).map (·.equation db.libc)) row

/-- A call on the map, its answer, and the map behind it. -/
inductive SpecStep (rows : Rows) : StoreCall → StoreAnswer → Rows → Prop where
  | getNone {junk lookup} : db.Fits (.select db.name lookup) → rows (db.keyOf lookup) = none →
      SpecStep rows (.get junk lookup) (0, none) rows
  | getSome {junk lookup row record} : db.Fits (.select db.name lookup) →
      rows (db.keyOf lookup) = some row → db.unpack (lookup.map fun v => row v.column) = some record →
      SpecStep rows (.get junk lookup) (0, some record) rows
  | getUnread {junk lookup row} : db.Fits (.select db.name lookup) → rows (db.keyOf lookup) = some row →
      db.unpack (lookup.map fun v => row v.column) = none →
      SpecStep rows (.get junk lookup) (-1, none) rows
  | getUnwritten {junk lookup} : ¬ db.Fits (.select db.name lookup) →
      SpecStep rows (.get junk lookup) (-1, none) rows
  | setOld {junk record hack row} : db.Fits (.update db.name record) → rows (db.keyOf record) = some row →
      SpecStep rows (.set junk record hack) (0, none)
        (Function.update rows (db.keyOf record) (some (db.updated record row)))
  | setNew {junk record hack} : db.Fits (.update db.name record) → rows (db.keyOf record) = none →
      db.Fits (.insert db.name record) →
      SpecStep rows (.set junk record hack) (0, none)
        (Function.update rows (db.keyOf record) (some (db.fresh record)))
  | setUnwritten {junk record hack} :
      ¬ (db.Fits (.update db.name record) ∧
        (rows (db.keyOf record) = none → db.Fits (.insert db.name record))) →
      SpecStep rows (.set junk record hack) (-1, none) rows
  | del {junk record} : db.Fits (.delete db.name record) →
      SpecStep rows (.del junk record) (0, none) (Function.update rows (db.keyOf record) none)
  | delUnwritten {junk record} : ¬ db.Fits (.delete db.name record) →
      SpecStep rows (.del junk record) (-1, none) rows
  | expire {column now rows'} {gone : Finset Key} : db.Fits (.cleanup db.name column now) →
      (∀ key, rows' key =
        (rows key).filter fun row => !db.arithmetic.below (row column) (digitBytes now)) →
      (∀ key, key ∈ gone ↔ (rows key).isSome = true ∧ rows' key = none) →
      SpecStep rows (.expire column now) (gone.card, none) rows'
  | expireUnwritten {column now} : ¬ db.Fits (.cleanup db.name column now) →
      SpecStep rows (.expire column now) (-1, none) rows

inductive SpecRun : Rows → List StoreCall → List StoreAnswer → Rows → Prop where
  | nil (rows : Rows) : SpecRun rows [] [] rows
  | cons {rows next last call calls answer answers} : SpecStep db rows call answer next →
      SpecRun next calls answers last → SpecRun rows (call :: calls) (answer :: answers) last

def StoreCall.OfScheme : StoreCall → Prop
  | .get _ lookup => Sql.OfScheme db lookup
  | .set _ record _ => Sql.OfScheme db record
  | .del _ record => Sql.OfScheme db record
  | .expire _ _ => True

end Spec

/-! ## Records of the scheme -/

section Records
variable {db : Store} {record : List Item}

theorem OfScheme.columns (of : OfScheme db record) : record.map (·.column) = db.scheme.map (·.column) := by
  have names := congrArg (List.map fun f : Option Bytes × Bool => f.1.getD []) of.fields
  rw [List.map_map, List.map_map] at names
  exact names

/-- What is picked by the key flag is picked in the same way in both. -/
theorem filter_fields (pick : Bool → Bool) {record scheme : List Item}
    (same : record.map (fun v => (v.name, v.key)) = scheme.map fun v => (v.name, v.key)) :
    (record.filter fun v => pick v.key).map (·.column) = (scheme.filter fun v => pick v.key).map (·.column) := by
  induction record generalizing scheme with
  | nil =>
      rw [List.map_nil] at same
      rw [List.map_eq_nil_iff.mp same.symm]
  | cons v record ih =>
      cases scheme with
      | nil => cases same
      | cons w scheme =>
          rw [List.map_cons, List.map_cons, List.cons.injEq, Prod.mk.injEq] at same
          have rest := ih same.2
          have column : v.column = w.column := by rw [Item.column, Item.column, same.1.1]
          rw [List.filter_cons, List.filter_cons, same.1.2]
          by_cases picked : pick w.key = true
          · rw [if_pos picked, if_pos picked, List.map_cons, List.map_cons, rest, column]
          · rw [if_neg picked, if_neg picked, rest]

theorem OfScheme.keys (of : OfScheme db record) : (keysOf record).map (·.column) = db.keys :=
  filter_fields id of.fields

theorem OfScheme.values (of : OfScheme db record) :
    (valuesOf record).map (·.column) = (valuesOf db.scheme).map (·.column) :=
  filter_fields not of.fields

theorem OfScheme.whole (of : OfScheme db record) (sound : db.Sound) :
    keysOf record ≠ [] ∧ valuesOf record ≠ [] := by
  constructor
  · intro none'
    have same := of.keys
    rw [none', List.map_nil, Store.keys] at same
    exact sound.keys (List.map_eq_nil_iff.mp same.symm)
  · intro none'
    have same := of.values
    rw [none', List.map_nil] at same
    exact sound.values (List.map_eq_nil_iff.mp same.symm)

/-- No two items of a record have the same column. -/
theorem OfScheme.names (of : OfScheme db record) (sound : db.Sound) : (record.map (·.column)).Nodup := by
  rw [of.columns]
  exact sound.names

theorem OfScheme.apart (of : OfScheme db record) (sound : db.Sound) {v w : Item} (inside : v ∈ record)
    (inside' : w ∈ record) (same : v.column = w.column) : v = w :=
  List.inj_on_of_nodup_map (of.names sound) inside inside' same

/-- A condition on the keys of a record is met by the rows that have its key. -/
theorem matching_iff (of : OfScheme db record) (row : Row) :
    SqlText.matching db.arithmetic ((keysOf record).map (·.equation db.libc)) row = true ↔
      db.keyOfRow row = db.keyOf record := by
  rw [SqlText.matching, List.all_eq_true, Store.keyOfRow, Store.keyOf, ← of.keys, List.map_map,
    List.map_inj_left]
  constructor
  · intro all v inside
    have held := all _ (List.mem_map_of_mem inside)
    simp only [SqlText.Equation.holds, SqlText.Equation.side, Item.equation, (of.present v inside).2,
      Bool.false_eq_true, if_false, Bool.and_eq_true, decide_eq_true_eq] at held
    exact held.1
  · intro all e inside
    obtain ⟨v, member, rfl⟩ := List.mem_map.mp inside
    have same := all v member
    have present : v.datum db.libc ≠ .null := by
      rw [Item.datum, (of.present v member).1]
      simp
    simp only [SqlText.Equation.holds, SqlText.Equation.side, Item.equation, (of.present v member).2,
      Bool.false_eq_true, if_false, Bool.and_eq_true, decide_eq_true_eq]
    exact ⟨same, by simpa using present⟩

/-- A new row has in each column what the record has there. -/
theorem fresh_column (of : OfScheme db record) (sound : db.Sound) {v : Item} (inside : v ∈ record) :
    db.fresh record v.column = v.datum db.libc := by
  have names := of.names sound
  rw [Store.fresh, SqlText.newRow, List.zip_map']
  have found : (record.map fun w : Item => (w.column, w.datum db.libc)).find? (·.1 = v.column) =
      some (v.column, v.datum db.libc) :=
    SqlText.rowOf_key Prod.fst (by rw [List.map_map]; exact names)
      (List.mem_map_of_mem (f := fun w : Item => (w.column, w.datum db.libc)) inside)
  rw [found]
  rfl

theorem fresh_key (of : OfScheme db record) (sound : db.Sound) : db.keyOfRow (db.fresh record) = db.keyOf record := by
  rw [Store.keyOfRow, Store.keyOf, ← of.keys, List.map_map]
  apply List.map_congr_left
  intro v inside
  exact fresh_column of sound (List.mem_of_mem_filter inside)

/-- An update leaves the keys of a row. -/
theorem updated_key (of : OfScheme db record) (sound : db.Sound) (row : Row) :
    db.keyOfRow (db.updated record row) = db.keyOfRow row := by
  rw [Store.keyOfRow, Store.keyOfRow, ← of.keys]
  apply List.map_congr_left
  intro c isKey
  obtain ⟨v, inside, rfl⟩ := List.mem_map.mp isKey
  have key := List.mem_filter.mp inside
  have untouched : ((valuesOf record).map (·.equation db.libc)).find? (·.column = v.column) = none := by
    rw [List.find?_eq_none]
    intro e changed
    obtain ⟨w, inside', rfl⟩ := List.mem_map.mp changed
    have value := List.mem_filter.mp inside'
    intro same
    have both := of.apart sound value.1 key.1 (of_decide_eq_true same)
    rw [both, key.2] at value
    cases value.2
  rw [Store.updated, SqlText.assign, untouched]

/-- An update sets the other columns, where the item is not added to. -/
theorem updated_column (of : OfScheme db record) (sound : db.Sound) (row : Row) {v : Item} (inside : v ∈ record)
    (value : v.key = false) (plain : v.safeUpdate = false) :
    db.updated record row v.column = v.datum db.libc := by
  have names : ((valuesOf record).map (·.column)).Nodup := (of.names sound).sublist (List.filter_sublist.map _)
  have found : ((valuesOf record).map (·.equation db.libc)).find? (·.column = v.column) =
      some (v.equation db.libc) :=
    SqlText.rowOf_key SqlText.Equation.column (by rw [List.map_map]; exact names)
      (List.mem_map_of_mem (f := fun w : Item => w.equation db.libc)
        (List.mem_filter.mpr ⟨inside, by simp [value]⟩))
  rw [Store.updated, SqlText.assign, found]
  simp [SqlText.Equation.side, Item.equation, plain]

end Records

/-! ## One call -/

section Steps
variable {db : Store} {record : List Item} {rows : List Row} {junk : Junk}

/-- A statement that is made is read, and one that does not fit is not made. -/
theorem build_cases (db : Store) (junk : Junk) (request : Request) (whole : request.Whole) :
    (∃ text, request.build db.libc junk = some text ∧ db.Fits request ∧
        SqlText.read text = some (request.statement db.libc)) ∨
      (request.build db.libc junk = none ∧ ¬ db.Fits request) := by
  have built := built_iff db.libc junk whole
  cases made : request.build db.libc junk with
  | some text => exact .inl ⟨text, rfl, built.mp ⟨text, made⟩, read_build db.libc junk whole made⟩
  | none =>
      refine .inr ⟨rfl, ?_⟩
      intro fits
      obtain ⟨text, other⟩ := built.mpr fits
      rw [made] at other
      cases other

/-- The rows of a table, where no two have the same key, are this map. -/
structure Holds (db : Store) (list : List Row) (rows : Rows) : Prop where
  unique : (list.map db.keyOfRow).Nodup
  same : rows = rowOf db.keyOfRow list

variable {map : Rows}

/-- A row is found under the key of a record when a condition on the keys meets it. -/
theorem filter_matching (holds : Holds db rows map) (of : OfScheme db record) :
    rows.filter (SqlText.matching db.arithmetic ((keysOf record).map (·.equation db.libc))) =
      (map (db.keyOf record)).toList := by
  rw [holds.same, ← SqlText.filter_key db.keyOfRow holds.unique]
  apply List.filter_congr
  intro row _
  rw [Bool.eq_iff_iff, matching_iff of, decide_eq_true_eq]

theorem get_spec (sound : db.Sound) (holds : Holds db rows map) (of : OfScheme db record) :
    SpecStep db map (.get junk record) (sqlDbGet db junk rows record) map := by
  have whole : (Request.select db.name record).Whole := (of.whole sound).1
  rcases build_cases db junk (.select db.name record) whole with ⟨text, built, fits, read⟩ | ⟨none', unfit⟩
  · have query : sqlSelect db.libc lite junk bufLen db.name record = some text := built
    have executed : sqlExec db rows text = some (rows, ((map (db.keyOf record)).toList.map fun row =>
        (record.map (·.column)).map row), 0) := by
      rw [sqlExec, read, Option.bind_some]
      simp only [Request.statement, SqlText.execute, ne_eq, not_true_eq_false, if_false,
        filter_matching holds of]
    rw [sqlDbGet, query]
    simp only [executed]
    cases found : map (db.keyOf record) with
    | none => exact .getNone fits found
    | some row =>
        have columns : (record.map (·.column)).map row = record.map fun v => row v.column := List.map_map
        simp only [Option.toList_some, List.map_cons, List.map_nil, columns]
        cases unpacked : db.unpack (record.map fun v => row v.column) with
        | none => exact .getUnread fits found unpacked
        | some values => exact .getSome fits found unpacked
  · have query : sqlSelect db.libc lite junk bufLen db.name record = none := none'
    rw [sqlDbGet, query]
    exact .getUnwritten unfit

/-- Rows that are changed without their keys. -/
theorem update_holds (sound : db.Sound) (holds : Holds db rows map) (of : OfScheme db record) {row : Row}
    (found : map (db.keyOf record) = some row) :
    Holds db
      (rows.map fun other =>
        if SqlText.matching db.arithmetic ((keysOf record).map (·.equation db.libc)) other then
          db.updated record other
        else other)
      (Function.update map (db.keyOf record) (some (db.updated record row))) := by
  have keeps : ∀ other ∈ rows, db.keyOfRow
      (if SqlText.matching db.arithmetic ((keysOf record).map (·.equation db.libc)) other then
        db.updated record other else other) = db.keyOfRow other := by
    intro other _
    split
    · exact updated_key of sound other
    · rfl
  refine ⟨?_, ?_⟩
  · rw [SqlText.map_key_map db.keyOfRow keeps]
    exact holds.unique
  · funext key
    rw [SqlText.rowOf_map db.keyOfRow keeps]
    by_cases here : key = db.keyOf record
    · subst here
      rw [Function.update_self, ← holds.same, found, Option.map_some]
      have matched := (matching_iff of row).mpr (SqlText.key_of_rowOf db.keyOfRow (holds.same ▸ found))
      rw [if_pos matched]
    · rw [Function.update_of_ne here, holds.same]
      cases other : rowOf db.keyOfRow rows key with
      | none => rfl
      | some row' =>
          have apart : ¬ SqlText.matching db.arithmetic ((keysOf record).map (·.equation db.libc)) row' = true := by
            rw [matching_iff of, SqlText.key_of_rowOf db.keyOfRow other]
            exact here
          rw [Option.map_some, if_neg apart]

theorem insert_holds (sound : db.Sound) (holds : Holds db rows map) (of : OfScheme db record)
    (absent : map (db.keyOf record) = none) :
    Holds db (rows ++ [db.fresh record])
      (Function.update map (db.keyOf record) (some (db.fresh record))) := by
  have key := fresh_key of sound
  refine ⟨?_, ?_⟩
  · apply SqlText.nodup_append_new db.keyOfRow holds.unique
    rw [key, ← SqlText.rowOf_none, ← holds.same]
    exact absent
  · funext other
    rw [SqlText.rowOf_append_new, key, ← holds.same]
    by_cases here : other = db.keyOf record
    · subst here
      rw [Function.update_self, absent, if_pos rfl, Option.none_or]
    · rw [Function.update_of_ne here, if_neg (Ne.symm here), Option.or_none]

/-- No row stands in the way of a new one when none has its key. -/
theorem no_clash (sound : db.Sound) (holds : Holds db rows map) (of : OfScheme db record)
    (absent : map (db.keyOf record) = none) :
    rows.any (SqlText.clashes db.keys (db.fresh record)) = false := by
  rw [Bool.eq_false_iff]
  intro clashing
  obtain ⟨row, inside, clash⟩ := List.any_eq_true.mp clashing
  rw [holds.same, SqlText.rowOf_none] at absent
  apply absent
  rw [← fresh_key of sound]
  have same : db.keyOfRow (db.fresh record) = db.keyOfRow row := by
    rw [SqlText.clashes, List.all_eq_true] at clash
    apply List.map_congr_left
    intro c isKey
    have both := clash c isKey
    simp only [Bool.and_eq_true, decide_eq_true_eq] at both
    exact both.1
  rw [same]
  exact List.mem_map_of_mem inside

theorem set_spec (sound : db.Sound) (holds : Holds db rows map) (of : OfScheme db record)
    (hack : Int × List Row) :
    ∃ next, SpecStep db map (.set junk record hack) ((sqlDbSetRows db junk rows record hack).1, none) next ∧
      Holds db (sqlDbSetRows db junk rows record hack).2 next := by
  have whole := of.whole sound
  have whole' : record ≠ [] := by
    rintro rfl
    exact whole.1 rfl
  have updateCases := build_cases db junk (.update db.name record) whole
  have insertCases := build_cases db junk (.insert db.name record) whole'
  rcases updateCases with ⟨text, built, fits, read⟩ | ⟨none', unfit⟩
  · have query : sqlUpdate db.libc lite junk bufLen db.name record = some text := built
    have executed : sqlExec db rows text = some (rows.map fun other =>
        if SqlText.matching db.arithmetic ((keysOf record).map (·.equation db.libc)) other then
          db.updated record other
        else other, [], (map (db.keyOf record)).toList.length) := by
      rw [sqlExec, read, Option.bind_some]
      simp only [Request.statement, SqlText.execute, ne_eq, not_true_eq_false, if_false,
        filter_matching holds of]
      rfl
    rw [sqlDbSetRows, query]
    simp only [executed]
    cases found : map (db.keyOf record) with
    | some row => exact ⟨_, .setOld fits found, update_holds sound holds of found⟩
    | none =>
        have unmatched := filter_matching holds of
        rw [found, Option.toList_none, List.filter_eq_nil_iff] at unmatched
        have same : (rows.map fun other =>
            if SqlText.matching db.arithmetic ((keysOf record).map (·.equation db.libc)) other then
              db.updated record other
            else other) = rows := by
          conv_rhs => rw [← List.map_id rows]
          apply List.map_congr_left
          intro other inside
          rw [if_neg (unmatched other inside), id]
        simp only [same, Option.toList_none, List.length_nil, ne_eq, not_true_eq_false, if_false]
        rcases insertCases with ⟨text, built, fits', read⟩ | ⟨none', unfit⟩
        · have query : sqlInsert db.libc lite junk bufLen db.name record = some text := built
          have executed : sqlExec db rows text = some (rows ++ [db.fresh record], [], 1) := by
            rw [sqlExec, read, Option.bind_some]
            have clear : rows.any (SqlText.clashes db.keys (SqlText.newRow (record.map (·.column))
                (record.map (·.datum db.libc)))) = false := no_clash sound holds of found
            simp only [Request.statement, SqlText.execute, ne_eq, not_true_eq_false, false_or, clear,
              Bool.false_eq_true, if_false]
            rfl
          rw [query]
          simp only [executed, not_true_eq_false, if_false]
          exact ⟨_, .setNew fits found fits', insert_holds sound holds of found⟩
        · have query : sqlInsert db.libc lite junk bufLen db.name record = none := none'
          rw [query]
          exact ⟨map, .setUnwritten fun both => unfit (both.2 found), holds⟩
  · have query : sqlUpdate db.libc lite junk bufLen db.name record = none := none'
    rw [sqlDbSetRows, query]
    exact ⟨map, .setUnwritten fun both => unfit both.1, holds⟩

theorem del_spec (sound : db.Sound) (holds : Holds db rows map) (of : OfScheme db record) :
    ∃ next, SpecStep db map (.del junk record) ((sqlDbDelRows db junk rows record).1, none) next ∧
      Holds db (sqlDbDelRows db junk rows record).2 next := by
  have whole : (Request.delete db.name record).Whole := (of.whole sound).1
  rcases build_cases db junk (.delete db.name record) whole with
    ⟨text, built, fits, read⟩ | ⟨none', unfit⟩
  · have query : sqlDelete db.libc lite junk bufLen db.name record = some text := built
    have executed : sqlExec db rows text = some (rows.filter (fun row =>
        !SqlText.matching db.arithmetic ((keysOf record).map (·.equation db.libc)) row), [],
        (map (db.keyOf record)).toList.length) := by
      rw [sqlExec, read, Option.bind_some]
      simp only [Request.statement, SqlText.execute, ne_eq, not_true_eq_false, if_false,
        filter_matching holds of]
    rw [sqlDbDelRows, query]
    simp only [executed]
    refine ⟨_, .del fits, SqlText.nodup_filter db.keyOfRow holds.unique _, ?_⟩
    funext key
    rw [SqlText.rowOf_filter db.keyOfRow holds.unique, ← holds.same]
    by_cases here : key = db.keyOf record
    · subst here
      rw [Function.update_self]
      cases found : map (db.keyOf record) with
      | none => rfl
      | some row =>
          have matched := (matching_iff of row).mpr (SqlText.key_of_rowOf db.keyOfRow (holds.same ▸ found))
          simp [Option.filter, matched]
    · rw [Function.update_of_ne here]
      cases found : map key with
      | none => rfl
      | some row =>
          have apart : SqlText.matching db.arithmetic ((keysOf record).map (·.equation db.libc)) row = false := by
            rw [Bool.eq_false_iff, ne_eq, matching_iff of,
              SqlText.key_of_rowOf db.keyOfRow (holds.same ▸ found)]
            exact here
          simp [Option.filter, apart]
  · have query : sqlDelete db.libc lite junk bufLen db.name record = none := none'
    rw [sqlDbDelRows, query]
    exact ⟨map, .delUnwritten unfit, holds⟩

/-- The rows below the limit are those that are gone. -/
theorem expired_keys (holds : Holds db rows map) (expired : Row → Bool) (key : Key) :
    key ∈ ((rows.filter expired).map db.keyOfRow).toFinset ↔
      (map key).isSome = true ∧ (map key).filter (fun row => !expired row) = none := by
  rw [List.mem_toFinset, List.mem_map]
  constructor
  · rintro ⟨row, inside, rfl⟩
    obtain ⟨inside, old⟩ := List.mem_filter.mp inside
    have found : map (db.keyOfRow row) = some row := by
      rw [holds.same]
      exact SqlText.rowOf_key db.keyOfRow holds.unique inside
    rw [found]
    simp [Option.filter, old]
  · rintro ⟨there, gone⟩
    obtain ⟨row, found⟩ := Option.isSome_iff_exists.mp there
    rw [found] at gone
    have old : expired row = true := by
      by_contra young
      simp [Option.filter, young] at gone
    rw [holds.same] at found
    exact ⟨row, List.mem_filter.mpr ⟨SqlText.rowOf_mem db.keyOfRow found, old⟩,
      SqlText.key_of_rowOf db.keyOfRow found⟩

theorem expire_spec (holds : Holds db rows map) (column : Bytes) (now : Nat) :
    ∃ next, SpecStep db map (.expire column now) ((sqlDbExpireRows db rows column now).1, none) next ∧
      Holds db (sqlDbExpireRows db rows column now).2 next := by
  rcases build_cases db ⟨[], [], [], []⟩ (.cleanup db.name column now) trivial with
    ⟨text, built, fits, read⟩ | ⟨none', unfit⟩
  · have query : sqlCleanup lite bufLen db.name column now = some text := built
    have executed : sqlExec db rows text = some (rows.filter (fun row =>
        !db.arithmetic.below (row column) (digitBytes now)), [],
        (rows.filter fun row => db.arithmetic.below (row column) (digitBytes now)).length) := by
      rw [sqlExec, read, Option.bind_some]
      simp only [Request.statement, SqlText.execute, ne_eq, not_true_eq_false, if_false]
    rw [sqlDbExpireRows, query]
    simp only [executed]
    have unique := SqlText.nodup_filter db.keyOfRow holds.unique fun row =>
      db.arithmetic.below (row column) (digitBytes now)
    have count := List.toFinset_card_of_nodup unique
    rw [List.length_map] at count
    rw [← count]
    have left (key : Key) : rowOf db.keyOfRow
        (rows.filter fun row => !db.arithmetic.below (row column) (digitBytes now)) key =
        (map key).filter fun row => !db.arithmetic.below (row column) (digitBytes now) := by
      rw [holds.same, SqlText.rowOf_filter db.keyOfRow holds.unique]
    refine ⟨_, .expire fits left ?_, SqlText.nodup_filter db.keyOfRow holds.unique _, rfl⟩
    intro key
    rw [left]
    exact expired_keys holds (fun row => db.arithmetic.below (row column) (digitBytes now)) key
  · have query : sqlCleanup lite bufLen db.name column now = none := none'
    rw [sqlDbExpireRows, query]
    exact ⟨map, .expireUnwritten unfit, holds⟩

end Steps

theorem storeStep_spec {db : Store} {rows : List Row} {map : Rows} (sound : db.Sound) (holds : Holds db rows map)
    {call : StoreCall} (of : call.OfScheme db) :
    ∃ next, SpecStep db map call (storeStep db rows call).1 next ∧ Holds db (storeStep db rows call).2 next := by
  cases call with
  | get junk lookup => exact ⟨map, get_spec sound holds of, holds⟩
  | set junk record hack => exact set_spec sound holds of hack
  | del junk record => exact del_spec sound holds of
  | expire column now => exact expire_spec holds column now

/-- Induction on the calls. -/
theorem storeRun_spec {db : Store} (sound : db.Sound) {calls : List StoreCall}
    (of : ∀ call ∈ calls, call.OfScheme db) {rows : List Row} {map : Rows} (holds : Holds db rows map) :
    ∃ last, SpecRun db map calls (storeRun db rows calls).1 last ∧ Holds db (storeRun db rows calls).2 last := by
  induction calls generalizing rows map with
  | nil => exact ⟨map, .nil map, holds⟩
  | cons call calls ih =>
      obtain ⟨next, stepped, holds'⟩ := storeStep_spec sound holds (of call List.mem_cons_self)
      obtain ⟨last, ran, atLast⟩ := ih (fun c inside => of c (List.mem_cons_of_mem call inside)) holds'
      exact ⟨last, .cons stepped ran, atLast⟩

def sampleStore : Store where
  libc := loopbackLibc
  pton := loopbackPton
  arithmetic := ⟨fun old _ => old, fun _ _ => false⟩
  name := cstr "hits"
  scheme := [⟨some (cstr "id"), true, false, .nil .string⟩, ⟨some (cstr "n"), false, false, .nil .int⟩]
  front := fun _ => []

/-- A key that closes its quotes. -/
def sampleHits (n : Int) : List Item :=
  [⟨some (cstr "id"), true, false, .string (cstr "' OR 'a'='a")⟩, ⟨some (cstr "n"), false, false, .int n⟩]

def otherHits : List Item :=
  [⟨some (cstr "id"), true, false, .string (cstr "b")⟩, ⟨some (cstr "n"), false, false, .int 1⟩]

def noJunk : Junk := ⟨[], [], [], []⟩

theorem sampleStore_sound : sampleStore.Sound where
  keys := List.cons_ne_nil _ _
  values := List.cons_ne_nil _ _
  names := by decide

theorem sampleHits_of (n : Int) : OfScheme sampleStore (sampleHits n) where
  fields := rfl
  present := by
    intro v inside
    cases inside with
    | head => exact ⟨rfl, rfl⟩
    | tail _ rest => cases rest

theorem otherHits_of : OfScheme sampleStore otherHits where
  fields := rfl
  present := by
    intro v inside
    cases inside with
    | head => exact ⟨rfl, rfl⟩
    | tail _ rest => cases rest

section Back
variable {db : Store} {record : List Item} {map : Rows}

/-- A literal without regard to its length. -/
def literalOf (text : Bytes) : Option Bytes := some (SqlText.Quote.literal.print text)

/-- The text that SQL reads in a literal. -/
def literalText (literal : Bytes) : Option Bytes :=
  match SqlText.tokens literal with
  | some [.quoted .literal text] => some text
  | _ => none

theorem literalText_keeps : Keeps literalOf literalText where
  literal text literal printed := by
    cases printed
    rw [literalText, SqlText.tokens_of_spells (SqlText.spells_quoted .literal text)]
  null := by decide

/-- The fields of a record are read as they were written. -/
theorem sqlUnpack_datums (inverts : Inverts db.libc db.pton) {fields : List Field} {items : List Item}
    (typed : List.Forall₂ (fun field v => OfField field v.value) fields items)
    (writable : ∀ v ∈ items, v.Writable db.libc)
    (survives : ∀ v ∈ items, Survives (db.columnOf (v.datum db.libc)).front v.value) :
    sqlUnpack db.libc db.pton fields (items.map fun v => db.columnOf (v.datum db.libc)) =
      some (items.map (·.value)) := by
  induction typed with
  | nil => rfl
  | @cons field v fields items of _ ih =>
      have written : sqlLiteral db.libc literalOf v.value = some (v.datum db.libc).print := by
        rw [sqlLiteral]
        by_cases null : v.value.isNull = true
        · rw [if_pos null, Item.datum, if_pos null]
          rfl
        · obtain ⟨raw, texted⟩ := Option.isSome_iff_exists.mp ((writable v List.mem_cons_self).resolve_left null)
          rw [if_neg null, Item.datum, if_neg null, texted]
          rfl
      have stored : (db.columnOf (v.datum db.libc)).text = literalText (v.datum db.libc).print := by
        cases v.datum db.libc with
        | null => exact literalText_keeps.null.symm
        | string text => exact (literalText_keeps.literal text _ rfl).symm
      obtain ⟨readable, scanned⟩ := field_iff inverts literalText_keeps of written stored
      rw [List.map_cons, List.map_cons, sqlUnpack_cons_iff readable]
      refine ⟨scanned.mpr (survives v List.mem_cons_self), ?_⟩
      apply ih
      · intro w inside
        exact writable w (List.mem_cons_of_mem v inside)
      · intro w inside
        exact survives w (List.mem_cons_of_mem v inside)

/-- A row that has the values of a record in its columns. -/
def Shows (db : Store) (record : List Item) (row : Row) : Prop :=
  ∀ v ∈ record, row v.column = v.datum db.libc

theorem shows_set (sound : db.Sound) (of : OfScheme db record) (plain : ∀ v ∈ record, v.safeUpdate = false)
    {junk : Junk} {hack : Int × List Row} {next : Rows} {result : Option (List Value)}
    (stepped : SpecStep db map (.set junk record hack) (0, result) next) {rows : List Row}
    (holds : Holds db rows map) :
    db.Fits (.update db.name record) ∧ ∃ row, next (db.keyOf record) = some row ∧ Shows db record row := by
  cases stepped with
  | @setOld _ _ _ row fits found =>
      refine ⟨fits, _, Function.update_self _ _ _, ?_⟩
      intro v inside
      cases isKey : v.key with
      | false => exact updated_column of sound row inside isKey (plain v inside)
      | true =>
          have keys : db.keyOfRow (db.updated record row) = db.keyOf record := by
            rw [updated_key of sound]
            exact SqlText.key_of_rowOf db.keyOfRow (holds.same ▸ found)
          rw [Store.keyOfRow, Store.keyOf, ← of.keys, List.map_map, List.map_inj_left] at keys
          exact keys v (List.mem_filter.mpr ⟨inside, isKey⟩)
  | setNew fits found fits' =>
      exact ⟨fits, _, Function.update_self _ _ _, fun v inside => fresh_column of sound inside⟩

/-- A call that has nothing to do with a record. -/
def StoreCall.Leaves (db : Store) (record : List Item) : StoreCall → Prop
  | .get _ _ => True
  | .set _ other _ => db.keyOf other ≠ db.keyOf record
  | .del _ other => db.keyOf other ≠ db.keyOf record
  | .expire column now => ∃ v ∈ record, v.column = column ∧
      db.arithmetic.below (v.datum db.libc) (digitBytes now) = false

theorem left_alone {call : StoreCall} {answer : StoreAnswer} {next : Rows}
    (stepped : SpecStep db map call answer next) (leaves : call.Leaves db record) {row : Row}
    (there : map (db.keyOf record) = some row) (shows' : Shows db record row) :
    next (db.keyOf record) = some row := by
  cases stepped with
  | getNone | getSome | getUnread | getUnwritten | setUnwritten | delUnwritten | expireUnwritten => exact there
  | setOld => rwa [Function.update_of_ne (Ne.symm leaves)]
  | setNew => rwa [Function.update_of_ne (Ne.symm leaves)]
  | del => rwa [Function.update_of_ne (Ne.symm leaves)]
  | expire fits left gone =>
      obtain ⟨v, inside, rfl, young⟩ := leaves
      rw [left, there, Option.filter, shows' v inside, young]
      rfl

/-- Induction on the calls, which all leave the record. -/
theorem run_leaves (sound : db.Sound) {calls : List StoreCall} (of : ∀ call ∈ calls, call.OfScheme db)
    (leaves : ∀ call ∈ calls, call.Leaves db record) {rows : List Row} (holds : Holds db rows map) {row : Row}
    (there : map (db.keyOf record) = some row) (shows' : Shows db record row) :
    ∃ last, Holds db (storeRun db rows calls).2 last ∧ last (db.keyOf record) = some row := by
  induction calls generalizing rows map with
  | nil => exact ⟨map, holds, there⟩
  | cons call calls ih =>
      obtain ⟨next, stepped, holds'⟩ := storeStep_spec sound holds (of call List.mem_cons_self)
      have still := left_alone stepped (leaves call List.mem_cons_self) there shows'
      exact ih (fun c inside => of c (List.mem_cons_of_mem call inside))
        (fun c inside => leaves c (List.mem_cons_of_mem call inside)) holds' still

/-- The fields of the scheme. -/
def Store.fields (db : Store) : List Field := db.scheme.map fun v => ⟨v.value.type, v.key⟩

theorem unpack_shown (inverts : Inverts db.libc db.pton) (of : OfScheme db record) {lookup : List Item}
    (ofLookup : OfScheme db lookup)
    (typed : List.Forall₂ (fun field v => OfField field v.value) db.fields record)
    (writable : ∀ v ∈ record, v.Writable db.libc)
    (survives : ∀ v ∈ record, Survives (db.columnOf (v.datum db.libc)).front v.value) {row : Row}
    (shows' : Shows db record row) : db.unpack (lookup.map fun v => row v.column) = some (record.map (·.value)) := by
  have columns : lookup.map (fun v => row v.column) = record.map fun v => v.datum db.libc := by
    calc lookup.map (fun v => row v.column)
      _ = (lookup.map (·.column)).map row := List.map_map.symm
      _ = (record.map (·.column)).map row := by rw [ofLookup.columns, of.columns]
      _ = record.map fun v => row v.column := List.map_map
      _ = record.map fun v => v.datum db.libc := List.map_congr_left shows'
  rw [Store.unpack, columns, List.map_map]
  exact sqlUnpack_datums inverts typed writable survives

theorem got_shown {lookup : List Item} {junk : Junk} {answer : StoreAnswer} {next : Rows}
    (got : SpecStep db map (.get junk lookup) answer next) (fits : db.Fits (.select db.name lookup)) {row : Row}
    (there : map (db.keyOf lookup) = some row) {values : List Value}
    (unpacked : db.unpack (lookup.map fun v => row v.column) = some values) : answer = (0, some values) := by
  cases got with
  | getNone _ absent =>
      rw [absent] at there
      cases there
  | getSome _ found read =>
      rw [found] at there
      cases there
      rw [read] at unpacked
      cases unpacked
      rfl
  | getUnread _ found read =>
      rw [found] at there
      cases there
      rw [read] at unpacked
      cases unpacked
  | getUnwritten unfit => exact absurd fits unfit

end Back

end Mopher.Sql
