import Mopher.Sql.Record
import Mopher.Lib.SqlText

/-!
# The statements of the SQL driver

Model of `sql_columns`, `sql_key_value`, `sql_create`, `sql_select_all`, `sql_select`,
`sql_insert`, `sql_update`, `sql_delete` and `sql_cleanup` of `sql.c`, with the escapes of
the driver for SQLite in `lite.c`.  All buffers have `BUFLEN` bytes.  One in which nothing
has been written keeps what was on the stack, which is `junk` here.

What a statement says is compared with what SQL reads in it, whatever the names and the
values of a record are.
-/

set_option autoImplicit false

namespace Mopher.Sql

/-- An item of a record, or of a scheme, where the value does not matter. -/
structure Item where
  name : Option Bytes
  key : Bool
  safeUpdate : Bool
  value : Value

/-- `sql_t`, as far as it writes. -/
structure Driver where
  escIdentifier : Nat → Bytes → Option Bytes
  escValue : Nat → Bytes → Option Bytes
  tInt : Bytes
  tFloat : Bytes
  tString : Bytes
  tText : Bytes
  tAddr : Bytes

/-- `SQL_KEYS`, `SQL_VALUES` and `SQL_ALL`. -/
inductive Types where
  | keys
  | values
  | all

/-- What the buffers of a call have in them before. -/
structure Junk where
  columns : Bytes
  values : Bytes
  set : Bytes
  where_ : Bytes

section Escapes

/-- `util_quote`, with the mark that starts and the one that ends. -/
def utilQuote (size : Nat) (start finish : UInt8) (str : Bytes) : Option Bytes :=
  if start ∈ str ∨ finish ∈ str then none
  else if size ≤ str.length + 2 then none
  else some (start :: str ++ [finish])

/-- The loop of `lite_esc_value`: the position, and what has been written. -/
def liteEscFrom (size : Nat) : Bytes → Nat → Bytes → Nat × Bytes
  | [], n, buffer => (n, buffer)
  | c :: rest, n, buffer =>
      if n < size - 1 then
        if c = 39 then liteEscFrom size rest (n + 1 + 1) (buffer ++ [39] ++ [c])
        else liteEscFrom size rest (n + 1) (buffer ++ [c])
      else (n, buffer)

def liteEscValue (size : Nat) (str : Bytes) : Option Bytes :=
  let written := liteEscFrom size str 1 [39]
  if size - 1 ≤ written.1 then none else some (written.2 ++ [39])

def liteEscIdentifier (size : Nat) (str : Bytes) : Option Bytes := utilQuote size 34 34 str

/-- The driver that `lite_init` registers. -/
def lite : Driver where
  escIdentifier := liteEscIdentifier
  escValue := liteEscValue
  tInt := cstr "INTEGER"
  tFloat := cstr "REAL"
  tString := cstr "TEXT"
  tText := cstr "TEXT"
  tAddr := cstr "TEXT"

end Escapes

section Builders
variable (libc : Libc) (sql : Driver) (junk : Junk)

/-- The `continue` of the loops. -/
def Types.selects (types : Types) (v : Item) : Bool :=
  match types with
  | .keys => v.key
  | .values => !v.key
  | .all => true

/-- One `snprintf` behind the `n` bytes that are in the buffer. -/
def sqlAppend (size : Nat) (join : Bytes) (n : Nat) (buffer piece : Bytes) : Option (Nat × Bytes) :=
  let added := (if n ≠ 0 then join else []) ++ piece
  if size ≤ n + added.length then none else some (n + added.length, buffer.take n ++ added)

/-- The loop over the items that `sql_columns`, `sql_key_value` and `sql_create` share. -/
def sqlJoinFrom {α : Type} (size : Nat) (join : Bytes) (selects : α → Bool) (piece : α → Option Bytes) :
    List α → Nat → Bytes → Option Bytes
  | [], _, buffer => some buffer
  | v :: rest, n, buffer =>
      if !selects v then sqlJoinFrom size join selects piece rest n buffer
      else
        match piece v with
        | none => none
        | some text =>
            match sqlAppend size join n buffer text with
            | none => none
            | some (n, buffer) => sqlJoinFrom size join selects piece rest n buffer

/-- The column of an item. -/
def columnPiece (v : Item) : Option Bytes := v.name.bind (sql.escIdentifier bufLen)

def sqlColumns (size : Nat) (types : Types) (join : Bytes) (scheme : List Item) (unwritten : Bytes) :
    Option Bytes :=
  sqlJoinFrom size join types.selects (columnPiece sql) scheme 0 unwritten

/-- `sql_values`, which takes all items of a record. -/
def sqlValuesText (size : Nat) (join : Bytes) (record : List Item) (unwritten : Bytes) : Option Bytes :=
  (sqlValues libc (sql.escValue bufLen) size join (record.map (·.value))).map fun written =>
    if record.isEmpty then unwritten else written.1

/-- An item as `column=value`, or `column=column+value`. -/
def equationPiece (v : Item) : Option Bytes :=
  (columnPiece sql v).bind fun column =>
    (sqlLiteral libc (sql.escValue bufLen) v.value).map fun value =>
      if v.safeUpdate then column ++ cstr "=" ++ column ++ cstr "+" ++ value
      else column ++ cstr "=" ++ value

def sqlKeyValue (size : Nat) (types : Types) (join : Bytes) (record : List Item) (unwritten : Bytes) :
    Option Bytes :=
  sqlJoinFrom size join types.selects (equationPiece libc sql) record 0 unwritten

/-- The type of a column. -/
def Driver.columnType : VarType → Option Bytes
  | .int => some sql.tInt
  | .float => some sql.tFloat
  | .string => some sql.tString
  | .blob => some sql.tText
  | .addr => some sql.tAddr
  | _ => none

/-- An item of a scheme, which has a name, as a definition. -/
def definitionPiece (v : Item) : Option Bytes :=
  (sql.columnType v.value.type).bind fun type =>
    (columnPiece sql v).map fun column => column ++ cstr " " ++ type

def sqlCreate (size : Nat) (tablename : Bytes) (scheme : List Item) : Option Bytes :=
  (sql.escIdentifier bufLen tablename).bind fun table =>
    (sqlJoinFrom bufLen (cstr ",") (fun _ => true) (definitionPiece sql) scheme 0 junk.columns).bind
      fun columns =>
        (sqlColumns sql bufLen .keys (cstr ",") scheme junk.values).bind fun keys =>
          fitting size
            (cstr "CREATE TABLE " ++ table ++ cstr " (" ++ columns ++ cstr ", PRIMARY KEY(" ++ keys ++ cstr "))")

def sqlSelectAll (size : Nat) (tablename : Bytes) (scheme : List Item) : Option Bytes :=
  (sql.escIdentifier bufLen tablename).bind fun table =>
    (sqlColumns sql bufLen .all (cstr ",") scheme junk.columns).bind fun columns =>
      fitting size (cstr "SELECT " ++ columns ++ cstr " FROM " ++ table)

def sqlSelect (size : Nat) (tablename : Bytes) (record : List Item) : Option Bytes :=
  (sqlSelectAll sql junk bufLen tablename record).bind fun all =>
    (sqlKeyValue libc sql bufLen .keys (cstr " AND ") record junk.where_).bind fun where_ =>
      fitting size (all ++ cstr " WHERE " ++ where_)

def sqlInsert (size : Nat) (tablename : Bytes) (record : List Item) : Option Bytes :=
  (sql.escIdentifier bufLen tablename).bind fun table =>
    (sqlColumns sql bufLen .all (cstr ",") record junk.columns).bind fun columns =>
      (sqlValuesText libc sql bufLen (cstr ",") record junk.values).bind fun values =>
        fitting size
          (cstr "INSERT INTO " ++ table ++ cstr " (" ++ columns ++ cstr ") VALUES (" ++ values ++ cstr ")")

def sqlUpdate (size : Nat) (tablename : Bytes) (record : List Item) : Option Bytes :=
  (sql.escIdentifier bufLen tablename).bind fun table =>
    (sqlKeyValue libc sql bufLen .values (cstr ",") record junk.set).bind fun set =>
      (sqlKeyValue libc sql bufLen .keys (cstr " AND ") record junk.where_).bind fun where_ =>
        fitting size (cstr "UPDATE " ++ table ++ cstr " SET " ++ set ++ cstr " WHERE " ++ where_)

def sqlDelete (size : Nat) (tablename : Bytes) (record : List Item) : Option Bytes :=
  (sql.escIdentifier bufLen tablename).bind fun table =>
    (sqlKeyValue libc sql bufLen .keys (cstr " AND ") record junk.where_).bind fun where_ =>
      fitting size (cstr "DELETE FROM " ++ table ++ cstr " WHERE " ++ where_)

def sqlCleanup (size : Nat) (tablename expireRaw : Bytes) (now : Nat) : Option Bytes :=
  (sql.escIdentifier bufLen tablename).bind fun table =>
    (sql.escIdentifier bufLen expireRaw).bind fun expire =>
      fitting size (cstr "DELETE FROM " ++ table ++ cstr " WHERE " ++ expire ++ cstr " < " ++ digitBytes now)

end Builders

/-! ## What a call is to say -/

/-- The calls that make a statement. -/
inductive Request where
  | create (table : Bytes) (scheme : List Item)
  | selectAll (table : Bytes) (scheme : List Item)
  | select (table : Bytes) (record : List Item)
  | insert (table : Bytes) (record : List Item)
  | update (table : Bytes) (record : List Item)
  | delete (table : Bytes) (record : List Item)
  | cleanup (table expire : Bytes) (now : Nat)

section Meaning
variable (libc : Libc) (junk : Junk)

def Request.build : Request → Option Bytes
  | .create table scheme => sqlCreate lite junk bufLen table scheme
  | .selectAll table scheme => sqlSelectAll lite junk bufLen table scheme
  | .select table record => sqlSelect libc lite junk bufLen table record
  | .insert table record => sqlInsert libc lite junk bufLen table record
  | .update table record => sqlUpdate libc lite junk bufLen table record
  | .delete table record => sqlDelete libc lite junk bufLen table record
  | .cleanup table expire now => sqlCleanup lite bufLen table expire now

def Item.column (v : Item) : Bytes := v.name.getD []

/-- What SQL gets for a value. -/
def Item.datum (v : Item) : SqlText.Value :=
  if v.value.isNull then .null else .string ((valueText libc v.value).getD [])

def Item.equation (v : Item) : SqlText.Equation := ⟨v.column, v.safeUpdate, v.datum libc⟩

def Item.type (v : Item) : Bytes := (lite.columnType v.value.type).getD []

def keysOf (record : List Item) : List Item := record.filter (·.key)

def valuesOf (record : List Item) : List Item := record.filter (!·.key)

def Request.statement : Request → SqlText.Statement
  | .create table scheme =>
      .create table (scheme.map fun v => (v.column, v.type)) ((keysOf scheme).map (·.column))
  | .selectAll table scheme => .select (scheme.map (·.column)) table []
  | .select table record =>
      .select (record.map (·.column)) table ((keysOf record).map (·.equation libc))
  | .insert table record => .insert table (record.map (·.column)) (record.map (·.datum libc))
  | .update table record =>
      .update table ((valuesOf record).map (·.equation libc)) ((keysOf record).map (·.equation libc))
  | .delete table record => .delete table ((keysOf record).map (·.equation libc))
  | .cleanup table expire now => .deleteBelow table expire (digitBytes now)

/-- A name that can be quoted. -/
def Plain (name : Bytes) : Prop := 34 ∉ name

instance (name : Bytes) : Decidable (Plain name) := inferInstanceAs (Decidable (34 ∉ name))

/-- The item has a name that can be quoted. -/
def Item.Named (v : Item) : Prop := ∃ name, v.name = some name ∧ Plain name

/-- The value is null or has a text. -/
def Item.Writable (v : Item) : Prop := v.value.isNull = true ∨ (valueText libc v.value).isSome = true

/-- What the statement is made of can be written. -/
def Request.Writable : Request → Prop
  | .create table scheme =>
      Plain table ∧ ∀ v ∈ scheme, v.Named ∧ (lite.columnType v.value.type).isSome = true
  | .selectAll table scheme => Plain table ∧ ∀ v ∈ scheme, v.Named
  | .select table record =>
      Plain table ∧ (∀ v ∈ record, v.Named) ∧ ∀ v ∈ keysOf record, v.Writable libc
  | .insert table record => Plain table ∧ ∀ v ∈ record, v.Named ∧ v.Writable libc
  | .update table record => Plain table ∧ ∀ v ∈ record, v.Named ∧ v.Writable libc
  | .delete table record => Plain table ∧ ∀ v ∈ keysOf record, v.Named ∧ v.Writable libc
  | .cleanup table expire _ => Plain table ∧ Plain expire

/-- There is something to write into every buffer. -/
def Request.Whole : Request → Prop
  | .create _ scheme => keysOf scheme ≠ []
  | .selectAll _ scheme => scheme ≠ []
  | .select _ record => keysOf record ≠ []
  | .insert _ record => record ≠ []
  | .update _ record => keysOf record ≠ [] ∧ valuesOf record ≠ []
  | .delete _ record => keysOf record ≠ []
  | .cleanup _ _ _ => True

end Meaning

/-! ## The escapes -/

theorem escape_plain {name : Bytes} (plain : Plain name) : SqlText.escape 34 name = name := by
  induction name with
  | nil => rfl
  | cons c name ih =>
      rw [Plain, List.mem_cons, not_or] at plain
      have behind := ih plain.2
      rw [SqlText.escape] at behind ⊢
      rw [List.flatMap_cons, behind, if_neg (Ne.symm plain.1), List.singleton_append]

theorem liteEscIdentifier_iff {size : Nat} {name text : Bytes} :
    lite.escIdentifier size name = some text ↔
      Plain name ∧ text = SqlText.Quote.name.print name ∧ text.length < size := by
  have same : lite.escIdentifier size name = utilQuote size 34 34 name := rfl
  rw [same, utilQuote]
  simp only [or_self]
  by_cases marked : 34 ∈ name
  · simp [marked, Plain]
  · have print : SqlText.Quote.name.print name = 34 :: name ++ [34] := by
      rw [SqlText.Quote.print, SqlText.Quote.mark, escape_plain marked]
    rw [if_neg marked, print]
    by_cases long : size ≤ name.length + 2
    · rw [if_pos long]
      simp only [reduceCtorEq, false_iff]
      rintro ⟨_, rfl, short⟩
      simp only [List.cons_append, List.length_cons, List.length_append, List.length_nil] at short
      omega
    · rw [if_neg long, Option.some_inj]
      constructor
      · intro same
        subst same
        refine ⟨marked, rfl, ?_⟩
        simp only [List.cons_append, List.length_cons, List.length_append, List.length_nil]
        omega
      · intro all
        exact all.2.1.symm

/-- The loop writes the escaped text if it fits, and meets the end of the buffer if not. -/
theorem liteEscFrom_spec (size : Nat) (str : Bytes) (n : Nat) (buffer : Bytes) :
    if n + (SqlText.escape 39 str).length < size - 1 then
      liteEscFrom size str n buffer = (n + (SqlText.escape 39 str).length, buffer ++ SqlText.escape 39 str)
    else size - 1 ≤ (liteEscFrom size str n buffer).1 := by
  induction str generalizing n buffer with
  | nil =>
      by_cases room : n < size - 1
      · simp [SqlText.escape, liteEscFrom, room]
      · have end' : ¬ n + 0 < size - 1 := room
        simp only [SqlText.escape, List.flatMap_nil, List.length_nil, if_neg end', liteEscFrom]
        exact Nat.le_of_not_lt room
  | cons c str ih =>
      have split : SqlText.escape 39 (c :: str) =
          (if c = 39 then [c, c] else [c]) ++ SqlText.escape 39 str := by
        rw [SqlText.escape, List.flatMap_cons]
        rfl
      rw [split, liteEscFrom]
      by_cases room : n < size - 1
      · rw [if_pos room]
        by_cases marked : c = 39
        · have behind := ih (n + 1 + 1) (buffer ++ [39] ++ [c])
          subst marked
          simp only [if_true, List.length_append, List.length_cons, List.length_nil] at behind ⊢
          have sum : n + (0 + 1 + 1 + (SqlText.escape 39 str).length) =
              n + 1 + 1 + (SqlText.escape 39 str).length := by omega
          rw [sum]
          simpa only [List.append_assoc, List.singleton_append, List.cons_append, List.nil_append] using behind
        · have behind := ih (n + 1) (buffer ++ [c])
          simp only [if_neg marked, List.length_append, List.length_cons, List.length_nil] at behind ⊢
          have sum : n + (0 + 1 + (SqlText.escape 39 str).length) = n + 1 + (SqlText.escape 39 str).length := by
            omega
          rw [sum]
          simpa only [List.append_assoc] using behind
      · rw [if_neg room, if_neg (by omega)]
        exact Nat.le_of_not_lt room

theorem liteEscValue_iff {size : Nat} {str text : Bytes} :
    lite.escValue size str = some text ↔ text = SqlText.Quote.literal.print str ∧ text.length < size := by
  have same : lite.escValue size str = liteEscValue size str := rfl
  have print : SqlText.Quote.literal.print str = [39] ++ SqlText.escape 39 str ++ [39] := rfl
  have spec := liteEscFrom_spec size str 1 [39]
  rw [same, liteEscValue, print]
  by_cases room : 1 + (SqlText.escape 39 str).length < size - 1
  · rw [if_pos room] at spec
    simp only [spec, if_neg (Nat.not_le_of_lt room), Option.some_inj]
    constructor
    · intro same
      subst same
      refine ⟨rfl, ?_⟩
      simp only [List.length_append, List.length_cons, List.length_nil]
      omega
    · intro all
      exact all.1.symm
  · rw [if_neg room] at spec
    simp only [if_pos spec, reduceCtorEq, false_iff]
    rintro ⟨rfl, short⟩
    simp only [List.length_append, List.length_cons, List.length_nil] at short
    omega

/-! ## Lists of pieces -/

section Pieces
variable {α : Type} {size : Nat} {join : Bytes} {selects : α → Bool} {piece : α → Option Bytes}

/-- What follows in a list that has begun. -/
def behind (join : Bytes) (print : α → Bytes) (items : List α) : Bytes :=
  items.flatMap fun v => join ++ print v

theorem separated_eq (print : α → Bytes) (v : α) (rest : List α) :
    SqlText.separated join ((v :: rest).map print) = print v ++ behind join print rest := by
  induction rest generalizing v with
  | nil => simp [SqlText.separated, behind]
  | cons w rest ih =>
      have next := ih w
      simp only [List.map_cons] at next
      simp only [List.map_cons, SqlText.separated, next, behind, List.flatMap_cons, List.append_assoc]

/-- How a piece is made: it may be refused, or it is this text, unless that is too long. -/
structure Makes (size : Nat) (piece : α → Option Bytes) (ok : α → Prop) (print : α → Bytes) : Prop where
  made : ∀ v text, piece v = some text → ok v ∧ text = print v
  make : ∀ v, ok v → (print v).length < size → piece v = some (print v)
  some : ∀ v, print v ≠ []

/-- Induction on the items, behind the first. -/
theorem sqlJoinFrom_behind {ok : α → Prop} {print : α → Bytes} (makes : Makes size piece ok print)
    (items : List α) (buffer text : Bytes) (begun : buffer ≠ []) (fits : buffer.length < size) :
    sqlJoinFrom size join selects piece items buffer.length buffer = some text ↔
      (∀ v ∈ items.filter selects, ok v) ∧ text = buffer ++ behind join print (items.filter selects) ∧
        text.length < size := by
  induction items generalizing buffer with
  | nil =>
      simp only [sqlJoinFrom, List.filter_nil, behind, List.flatMap_nil, List.append_nil, Option.some_inj]
      constructor
      · rintro rfl
        exact ⟨fun _ inside => absurd inside List.not_mem_nil, rfl, fits⟩
      · intro all
        exact all.2.1.symm
  | cons v items ih =>
      rw [sqlJoinFrom]
      by_cases selected : selects v = true
      · have chosen : ¬ (!selects v) = true := by simp [selected]
        rw [if_neg chosen, List.filter_cons_of_pos selected]
        have whole : behind join print (v :: items.filter selects) =
            join ++ print v ++ behind join print (items.filter selects) := by
          rw [behind, List.flatMap_cons]
          rfl
        have long : (buffer ++ (join ++ print v ++ behind join print (items.filter selects))).length =
            buffer.length + (join.length + (print v).length +
              (behind join print (items.filter selects)).length) := by
          simp only [List.length_append]
        rw [whole]
        cases made : piece v with
        | none =>
            simp only [reduceCtorEq, false_iff]
            rintro ⟨ok, rfl, short⟩
            have refused := makes.make v (ok v List.mem_cons_self) (by omega)
            rw [made] at refused
            cases refused
        | some p =>
            obtain ⟨okV, rfl⟩ := makes.made v p made
            have positive : buffer.length ≠ 0 := fun empty => begun (List.length_eq_zero_iff.mp empty)
            simp only [sqlAppend, if_pos positive, List.take_length, List.length_append]
            by_cases room : size ≤ buffer.length + (join.length + (print v).length)
            · rw [if_pos room]
              simp only [reduceCtorEq, false_iff]
              rintro ⟨_, rfl, short⟩
              omega
            · rw [if_neg room]
              have next := ih (buffer ++ (join ++ print v)) (by simp [begun]) (by
                simp only [List.length_append]
                omega)
              simp only [List.length_append, List.append_assoc] at next ⊢
              rw [next]
              simp [okV]
      · have skipped : (!selects v) = true := by simp [selected]
        rw [if_pos skipped, List.filter_cons_of_neg selected]
        exact ih buffer begun fits

/-- What the loop writes, and when it does. -/
theorem sqlJoin_iff {ok : α → Prop} {print : α → Bytes} (makes : Makes size piece ok print) (items : List α)
    (unwritten text : Bytes) (some' : items.filter selects ≠ []) :
    sqlJoinFrom size join selects piece items 0 unwritten = some text ↔
      (∀ v ∈ items.filter selects, ok v) ∧
        text = SqlText.separated join ((items.filter selects).map print) ∧ text.length < size := by
  induction items with
  | nil => exact absurd rfl some'
  | cons v items ih =>
      rw [sqlJoinFrom]
      by_cases selected : selects v = true
      · have chosen : ¬ (!selects v) = true := by simp [selected]
        rw [if_neg chosen, List.filter_cons_of_pos selected, separated_eq]
        have long : (print v ++ behind join print (items.filter selects)).length =
            (print v).length + (behind join print (items.filter selects)).length := List.length_append
        cases made : piece v with
        | none =>
            simp only [reduceCtorEq, false_iff]
            rintro ⟨ok, rfl, short⟩
            have refused := makes.make v (ok v List.mem_cons_self) (by omega)
            rw [made] at refused
            cases refused
        | some p =>
            obtain ⟨okV, rfl⟩ := makes.made v p made
            simp only [sqlAppend, ne_eq, not_true_eq_false, if_false, List.nil_append, Nat.zero_add,
              List.take_zero]
            by_cases room : size ≤ (print v).length
            · rw [if_pos room]
              simp only [reduceCtorEq, false_iff]
              rintro ⟨_, rfl, short⟩
              omega
            · rw [if_neg room]
              rw [sqlJoinFrom_behind makes items (print v) text (makes.some v) (Nat.lt_of_not_le room)]
              simp [okV]
      · have skipped : (!selects v) = true := by simp [selected]
        rw [List.filter_cons_of_neg selected] at some' ⊢
        rw [if_pos skipped]
        exact ih some'

end Pieces

/-! ## The pieces of a record -/

section Pieces'
variable (libc : Libc)

theorem makes_column : Makes bufLen (columnPiece lite) Item.Named fun v => SqlText.Quote.name.print v.column := by
  refine ⟨?_, ?_, fun v => List.cons_ne_nil _ _⟩
  · intro v text made
    obtain ⟨name, named, escaped⟩ := Option.bind_eq_some_iff.mp made
    obtain ⟨plain, print, _⟩ := liteEscIdentifier_iff.mp escaped
    refine ⟨⟨name, named, plain⟩, ?_⟩
    rw [print, Item.column, named]
    rfl
  · rintro v ⟨name, named, plain⟩ short
    have column : v.column = name := by rw [Item.column, named]; rfl
    rw [column] at short ⊢
    rw [columnPiece, named]
    exact liteEscIdentifier_iff.mpr ⟨plain, rfl, short⟩

/-- A literal is what SQL gets for the value, in quotes unless it is null. -/
theorem sqlLiteral_made {v : Item} {text : Bytes}
    (made : sqlLiteral libc (lite.escValue bufLen) v.value = some text) :
    v.Writable libc ∧ text = (v.datum libc).print := by
  rw [sqlLiteral] at made
  by_cases null : v.value.isNull = true
  · rw [if_pos null] at made
    cases made
    refine ⟨.inl null, ?_⟩
    rw [Item.datum, if_pos null]
    rfl
  · rw [if_neg null] at made
    obtain ⟨raw, written, escaped⟩ := Option.bind_eq_some_iff.mp made
    refine ⟨.inr (by rw [written]; rfl), ?_⟩
    rw [Item.datum, if_neg null, written]
    exact (liteEscValue_iff.mp escaped).1

theorem sqlLiteral_make {v : Item} (writable : v.Writable libc) (short : (v.datum libc).print.length < bufLen) :
    sqlLiteral libc (lite.escValue bufLen) v.value = some (v.datum libc).print := by
  rw [sqlLiteral]
  by_cases null : v.value.isNull = true
  · rw [if_pos null, Item.datum, if_pos null]
    rfl
  · obtain ⟨raw, written⟩ := Option.isSome_iff_exists.mp (writable.resolve_left null)
    rw [Item.datum, if_neg null, written] at short ⊢
    rw [if_neg null]
    exact liteEscValue_iff.mpr ⟨rfl, short⟩

theorem makes_literal : Makes bufLen (fun v : Item => sqlLiteral libc (lite.escValue bufLen) v.value)
    (Item.Writable libc) fun v => (v.datum libc).print := by
  refine ⟨fun v text made => sqlLiteral_made libc made, fun v ok short => sqlLiteral_make libc ok short, ?_⟩
  intro v
  cases v.datum libc with
  | null => exact List.cons_ne_nil _ _
  | string text => exact List.cons_ne_nil _ _

theorem makes_equation : Makes bufLen (equationPiece libc lite) (fun v => v.Named ∧ v.Writable libc)
    fun v => (v.equation libc).print := by
  refine ⟨?_, ?_, fun v => List.cons_ne_nil _ _⟩
  · intro v text made
    obtain ⟨column, named, made⟩ := Option.bind_eq_some_iff.mp made
    obtain ⟨value, literal, made⟩ := Option.map_eq_some_iff.mp made
    obtain ⟨isNamed, rfl⟩ := makes_column.made v column named
    obtain ⟨writable, rfl⟩ := sqlLiteral_made libc literal
    refine ⟨⟨isNamed, writable⟩, ?_⟩
    rw [← made]
    cases safe : v.safeUpdate <;>
      simp [SqlText.Equation.print, Item.equation, safe, cstr, SqlText.ascii]
  · rintro v ⟨isNamed, writable⟩ short
    have column := makes_column.make v isNamed
    have literal := sqlLiteral_make libc writable
    have parts : (SqlText.Quote.name.print v.column).length < bufLen ∧ (v.datum libc).print.length < bufLen := by
      simp only [SqlText.Equation.print, Item.equation, List.length_append] at short
      omega
    rw [equationPiece, column parts.1, Option.bind_some, literal parts.2, Option.map_some, Option.some_inj]
    cases safe : v.safeUpdate <;>
      simp [SqlText.Equation.print, Item.equation, safe, cstr, SqlText.ascii]

theorem makes_definition : Makes bufLen (definitionPiece lite)
    (fun v => v.Named ∧ (lite.columnType v.value.type).isSome = true)
    fun v => SqlText.Quote.name.print v.column ++ SqlText.ascii " " ++ v.type := by
  refine ⟨?_, ?_, fun v => List.cons_ne_nil _ _⟩
  · intro v text made
    obtain ⟨type, known, made⟩ := Option.bind_eq_some_iff.mp made
    obtain ⟨column, named, made⟩ := Option.map_eq_some_iff.mp made
    obtain ⟨isNamed, rfl⟩ := makes_column.made v column named
    refine ⟨⟨isNamed, by rw [known]; rfl⟩, ?_⟩
    rw [← made, Item.type, known]
    rfl
  · rintro v ⟨isNamed, known⟩ short
    obtain ⟨type, known⟩ := Option.isSome_iff_exists.mp known
    have part : (SqlText.Quote.name.print v.column).length < bufLen := by
      simp only [List.length_append] at short
      omega
    rw [definitionPiece, known, Option.bind_some, makes_column.make v isNamed part, Option.map_some, Item.type,
      known]
    rfl

/-- `sql_values` is a loop like the others. -/
theorem sqlValuesFrom_eq (esc : Bytes → Option Bytes) (size : Nat) (join : Bytes) (record : List Item)
    (text : Bytes) :
    (sqlValuesFrom libc esc size join (record.map (·.value)) text).map Prod.fst =
      sqlJoinFrom size join (fun _ => true) (fun v : Item => sqlLiteral libc esc v.value) record text.length
        text := by
  induction record generalizing text with
  | nil => rfl
  | cons v record ih =>
      rw [List.map_cons, sqlValuesFrom, sqlJoinFrom]
      simp only [Bool.not_true, Bool.false_eq_true, if_false]
      cases sqlLiteral libc esc v.value with
      | none => rfl
      | some literal =>
          have joined : (if text.isEmpty = true then [] else join) = if text.length ≠ 0 then join else [] := by
            cases text <;> rfl
          simp only [joined, sqlAppend, List.take_length]
          generalize (if text.length ≠ 0 then join else []) = between
          have next := ih (text ++ between ++ literal)
          simp only [List.length_append, ← Nat.add_assoc] at next ⊢
          by_cases long : size ≤ text.length + between.length + literal.length
          · simp only [if_pos long, Option.map_none]
          · have forget : (Prod.fst ∘ fun r : Bytes × List Bytes => (r.1, literal :: r.2)) = Prod.fst := rfl
            simp only [if_neg long, Option.map_map, forget]
            simpa only [List.append_assoc] using next

end Pieces'

/-! ## Whole statements -/

section Statements
variable (libc : Libc) (junk : Junk) {table : Bytes} {record : List Item} {text : Bytes}

theorem sqlColumns_iff (types : Types) (record : List Item) (unwritten : Bytes)
    (some' : record.filter types.selects ≠ []) :
    sqlColumns lite bufLen types (cstr ",") record unwritten = some text ↔
      (∀ v ∈ record.filter types.selects, v.Named) ∧
        text = SqlText.names ((record.filter types.selects).map (·.column)) ∧ text.length < bufLen := by
  rw [sqlColumns, sqlJoin_iff makes_column record unwritten text some', SqlText.names, List.map_map]
  rfl

theorem sqlValuesText_iff (unwritten : Bytes) (some' : record ≠ []) :
    sqlValuesText libc lite bufLen (cstr ",") record unwritten = some text ↔
      (∀ v ∈ record, v.Writable libc) ∧
        text = SqlText.separated (SqlText.ascii ",") ((record.map (·.datum libc)).map SqlText.Value.print) ∧
        text.length < bufLen := by
  have all : record.filter (fun _ => true) = record := List.filter_eq_self.mpr fun _ _ => rfl
  have isSome : record.isEmpty = false := by
    obtain ⟨v, rest, rfl⟩ := List.exists_cons_of_ne_nil some'
    rfl
  have loop := sqlValuesFrom_eq libc (lite.escValue bufLen) bufLen (cstr ",") record []
  simp only [sqlValuesText, isSome, Bool.false_eq_true, if_false]
  rw [sqlValues, show (fun written : Bytes × List Bytes => written.1) = Prod.fst from rfl, loop, List.length_nil,
    sqlJoin_iff (makes_literal libc) record [] text (by rw [all]; exact some'), all, List.map_map]
  rfl

theorem sqlKeyValue_iff (types : Types) (record : List Item) (join unwritten : Bytes)
    (some' : record.filter types.selects ≠ []) :
    sqlKeyValue libc lite bufLen types join record unwritten = some text ↔
      (∀ v ∈ record.filter types.selects, v.Named ∧ v.Writable libc) ∧
        text = SqlText.separated join
          (((record.filter types.selects).map (·.equation libc)).map SqlText.Equation.print) ∧
        text.length < bufLen := by
  rw [sqlKeyValue, sqlJoin_iff (makes_equation libc) record unwritten text some', List.map_map]
  rfl

theorem ascii_cstr (text : String) : cstr text = SqlText.ascii text := rfl

theorem fitting_iff {size : Nat} {whole : Bytes} :
    fitting size whole = some text ↔ text = whole ∧ text.length < size := by
  rw [fitting]
  by_cases long : size ≤ whole.length
  · rw [if_pos long]
    simp only [reduceCtorEq, false_iff]
    rintro ⟨rfl, short⟩
    omega
  · rw [if_neg long, Option.some_inj]
    constructor
    · rintro rfl
      exact ⟨rfl, Nat.lt_of_not_le long⟩
    · intro all
      exact all.1.symm

theorem selects_keys : record.filter Types.keys.selects = keysOf record := rfl

theorem selects_values : record.filter Types.values.selects = valuesOf record := rfl

theorem selects_all : record.filter Types.all.selects = record := List.filter_eq_self.mpr fun _ _ => rfl

/-- The statement is made when its parts can be written and it fits. -/
def Makes' (request : Request) : Prop :=
  ∀ text, request.build libc junk = some text ↔
    request.Writable libc ∧ text = (request.statement libc).print ∧ text.length < bufLen

theorem insert_made (some' : record ≠ []) : Makes' libc junk (.insert table record) := by
  intro text
  simp only [Request.build, sqlInsert, Option.bind_eq_some_iff, liteEscIdentifier_iff, fitting_iff]
  simp only [sqlColumns_iff .all record _ (by rw [selects_all]; exact some'),
    sqlValuesText_iff libc _ some', selects_all]
  simp only [Request.Writable, Request.statement, SqlText.Statement.print, ascii_cstr]
  constructor
  · rintro ⟨_, ⟨plain, rfl, _⟩, _, ⟨isNamed, rfl, _⟩, _, ⟨writable, rfl, _⟩, rfl, short⟩
    exact ⟨⟨plain, fun v inside => ⟨isNamed v inside, writable v inside⟩⟩, rfl, short⟩
  · rintro ⟨⟨plain, all⟩, rfl, short⟩
    have parts := short
    simp only [List.length_append] at parts
    exact ⟨_, ⟨plain, rfl, by omega⟩, _, ⟨fun v inside => (all v inside).1, rfl, by omega⟩, _,
      ⟨fun v inside => (all v inside).2, rfl, by omega⟩, rfl, short⟩

theorem update_made (someKeys : keysOf record ≠ []) (someValues : valuesOf record ≠ []) :
    Makes' libc junk (.update table record) := by
  intro text
  simp only [Request.build, sqlUpdate, Option.bind_eq_some_iff, liteEscIdentifier_iff, fitting_iff]
  simp only [sqlKeyValue_iff libc .values record _ _ someValues,
    sqlKeyValue_iff libc .keys record _ _ someKeys, selects_keys, selects_values]
  simp only [Request.Writable, Request.statement, SqlText.Statement.print, ascii_cstr]
  constructor
  · rintro ⟨_, ⟨plain, rfl, _⟩, _, ⟨values, rfl, _⟩, _, ⟨keys, rfl, _⟩, rfl, short⟩
    refine ⟨⟨plain, ?_⟩, rfl, short⟩
    intro v inside
    cases isKey : v.key with
    | false => exact values v (List.mem_filter.mpr ⟨inside, by simp [isKey]⟩)
    | true => exact keys v (List.mem_filter.mpr ⟨inside, isKey⟩)
  · rintro ⟨⟨plain, all⟩, rfl, short⟩
    have parts := short
    simp only [List.length_append, SqlText.conditions] at parts
    exact ⟨_, ⟨plain, rfl, by omega⟩, _, ⟨fun v inside => all v (List.mem_of_mem_filter inside), rfl, by omega⟩,
      _, ⟨fun v inside => all v (List.mem_of_mem_filter inside), rfl, by omega⟩, rfl, short⟩

theorem delete_made (someKeys : keysOf record ≠ []) : Makes' libc junk (.delete table record) := by
  intro text
  simp only [Request.build, sqlDelete, Option.bind_eq_some_iff, liteEscIdentifier_iff, fitting_iff]
  simp only [sqlKeyValue_iff libc .keys record _ _ someKeys, selects_keys]
  simp only [Request.Writable, Request.statement, SqlText.Statement.print, ascii_cstr]
  constructor
  · rintro ⟨_, ⟨plain, rfl, _⟩, _, ⟨keys, rfl, _⟩, rfl, short⟩
    exact ⟨⟨plain, keys⟩, rfl, short⟩
  · rintro ⟨⟨plain, all⟩, rfl, short⟩
    have parts := short
    simp only [List.length_append, SqlText.conditions] at parts
    exact ⟨_, ⟨plain, rfl, by omega⟩, _, ⟨all, rfl, by omega⟩, rfl, short⟩

theorem cleanup_made {expire : Bytes} {now : Nat} : Makes' libc junk (.cleanup table expire now) := by
  intro text
  simp only [Request.build, sqlCleanup, Option.bind_eq_some_iff, liteEscIdentifier_iff, fitting_iff]
  simp only [Request.Writable, Request.statement, SqlText.Statement.print, ascii_cstr]
  constructor
  · rintro ⟨_, ⟨plain, rfl, _⟩, _, ⟨plain', rfl, _⟩, rfl, short⟩
    exact ⟨⟨plain, plain'⟩, rfl, short⟩
  · rintro ⟨⟨plain, plain'⟩, rfl, short⟩
    have parts := short
    simp only [List.length_append] at parts
    exact ⟨_, ⟨plain, rfl, by omega⟩, _, ⟨plain', rfl, by omega⟩, rfl, short⟩

theorem selectAll_made (some' : record ≠ []) : Makes' libc junk (.selectAll table record) := by
  intro text
  simp only [Request.build, sqlSelectAll, Option.bind_eq_some_iff, liteEscIdentifier_iff, fitting_iff]
  simp only [sqlColumns_iff .all record _ (by rw [selects_all]; exact some'), selects_all]
  simp only [Request.Writable, Request.statement, SqlText.Statement.print, ascii_cstr]
  constructor
  · rintro ⟨_, ⟨plain, rfl, _⟩, _, ⟨isNamed, rfl, _⟩, rfl, short⟩
    exact ⟨⟨plain, isNamed⟩, rfl, short⟩
  · rintro ⟨⟨plain, isNamed⟩, rfl, short⟩
    have parts := short
    simp only [List.length_append] at parts
    exact ⟨_, ⟨plain, rfl, by omega⟩, _, ⟨isNamed, rfl, by omega⟩, rfl, short⟩

/-- A selection is the one of all rows, with conditions. -/
theorem select_made (someKeys : keysOf record ≠ []) : Makes' libc junk (.select table record) := by
  intro text
  have some' : record ≠ [] := by
    rintro rfl
    exact someKeys rfl
  obtain ⟨v, rest, keys⟩ := List.exists_cons_of_ne_nil someKeys
  have print : (Request.statement libc (.select table record)).print =
      (Request.statement libc (.selectAll table record)).print ++ SqlText.ascii " WHERE " ++
        SqlText.conditions ((keysOf record).map (·.equation libc)) := by
    simp only [Request.statement, keys, List.map_cons, SqlText.Statement.print]
  have all : Makes' libc junk (.selectAll table record) := selectAll_made libc junk some'
  simp only [Makes', Request.build] at all
  simp only [Request.build, sqlSelect, Option.bind_eq_some_iff, fitting_iff, all,
    sqlKeyValue_iff libc .keys record _ _ someKeys, selects_keys, print, ascii_cstr]
  constructor
  · rintro ⟨_, ⟨⟨plain, isNamed⟩, rfl, _⟩, _, ⟨keys, rfl, _⟩, rfl, short⟩
    exact ⟨⟨plain, isNamed, fun v inside => (keys v inside).2⟩, rfl, short⟩
  · rintro ⟨⟨plain, isNamed, writable⟩, rfl, short⟩
    have parts := short
    simp only [List.length_append, SqlText.conditions] at parts
    exact ⟨_, ⟨⟨plain, isNamed⟩, rfl, by omega⟩, _,
      ⟨fun v inside => ⟨isNamed v (List.mem_of_mem_filter inside), writable v inside⟩, rfl, by omega⟩, rfl, short⟩

theorem create_made (someKeys : keysOf record ≠ []) : Makes' libc junk (.create table record) := by
  intro text
  have some' : record ≠ [] := by
    rintro rfl
    exact someKeys rfl
  have all : record.filter (fun _ => true) = record := List.filter_eq_self.mpr fun _ _ => rfl
  have columns (text : Bytes) : sqlJoinFrom bufLen (cstr ",") (fun _ => true) (definitionPiece lite) record 0
      junk.columns = some text ↔ _ :=
    sqlJoin_iff makes_definition record junk.columns text (by rw [all]; exact some')
  simp only [Request.build, sqlCreate, Option.bind_eq_some_iff, liteEscIdentifier_iff, fitting_iff]
  simp only [sqlColumns_iff .keys record _ someKeys, columns, all, selects_keys]
  simp only [Request.Writable, Request.statement, SqlText.Statement.print, List.map_map, Function.comp_def, ascii_cstr]
  constructor
  · rintro ⟨_, ⟨plain, rfl, _⟩, _, ⟨known, rfl, _⟩, _, ⟨_, rfl, _⟩, rfl, short⟩
    exact ⟨⟨plain, known⟩, rfl, short⟩
  · rintro ⟨⟨plain, known⟩, rfl, short⟩
    have parts := short
    simp only [List.length_append] at parts
    exact ⟨_, ⟨plain, rfl, by omega⟩, _, ⟨known, rfl, by omega⟩, _,
      ⟨fun v inside => (known v (List.mem_of_mem_filter inside)).1, rfl, by omega⟩, rfl, short⟩

theorem request_made {request : Request} (whole : request.Whole) : Makes' libc junk request := by
  cases request with
  | create table scheme => exact create_made libc junk whole
  | selectAll table scheme => exact selectAll_made libc junk whole
  | select table record => exact select_made libc junk whole
  | insert table record => exact insert_made libc junk whole
  | update table record => exact update_made libc junk whole.1 whole.2
  | delete table record => exact delete_made libc junk whole
  | cleanup table expire now => exact cleanup_made libc junk

theorem isWord_digitBytes (n : Nat) : SqlText.IsWord (digitBytes n) := by
  refine ⟨?_, ?_⟩
  · rw [digitBytes, ne_eq, List.map_eq_nil_iff]
    exact Nat.toDigits_ne_nil
  · intro c inside
    have digit := isDigit_digitBytes n c inside
    simp only [isDigit] at digit
    simp [SqlText.isWordChar, digit]

theorem isWord_columnType {varType : VarType} {type : Bytes} (known : lite.columnType varType = some type) :
    SqlText.IsWord type := by
  have words : ∀ word ∈ [lite.tInt, lite.tFloat, lite.tText], word ≠ [] ∧ ∀ c ∈ word, SqlText.isWordChar c = true := by
    simp [lite, cstr, SqlText.isWordChar]
  have inside : type ∈ [lite.tInt, lite.tFloat, lite.tText] := by
    cases varType
    all_goals cases known
    all_goals simp [lite]
  exact ⟨(words type inside).1, (words type inside).2⟩

theorem isWord_type {v : Item} (known : (lite.columnType v.value.type).isSome = true) :
    SqlText.IsWord v.type := by
  obtain ⟨type, known⟩ := Option.isSome_iff_exists.mp known
  rw [Item.type, known]
  exact isWord_columnType known

theorem map_ne_nil {α β : Type} {f : α → β} {items : List α} (some' : items ≠ []) : items.map f ≠ [] := by
  rw [ne_eq, List.map_eq_nil_iff]
  exact some'

/-- Nothing is missing in what is to be said. -/
theorem statement_complete {request : Request} (whole : request.Whole) (writable : request.Writable libc) :
    (request.statement libc).Complete := by
  cases request with
  | create table scheme =>
      have some' : scheme ≠ [] := by
        rintro rfl
        exact whole rfl
      refine ⟨map_ne_nil some', map_ne_nil whole, ?_⟩
      intro c inside
      obtain ⟨v, member, rfl⟩ := List.mem_map.mp inside
      exact isWord_type (writable.2 v member).2
  | selectAll table scheme => exact map_ne_nil whole
  | select table record =>
      apply map_ne_nil
      rintro rfl
      exact whole rfl
  | insert table record => exact ⟨map_ne_nil whole, map_ne_nil whole⟩
  | update table record => exact ⟨map_ne_nil whole.2, map_ne_nil whole.1⟩
  | delete table record => exact map_ne_nil whole
  | cleanup table expire now => exact isWord_digitBytes now

theorem read_build {request : Request} (whole : request.Whole) (built : request.build libc junk = some text) :
    SqlText.read text = some (request.statement libc) := by
  obtain ⟨writable, rfl, _⟩ := (request_made libc junk whole text).mp built
  exact SqlText.read_print (statement_complete libc whole writable)

theorem built_iff {request : Request} (whole : request.Whole) :
    (∃ text, request.build libc junk = some text) ↔
      request.Writable libc ∧ (request.statement libc).print.length < bufLen := by
  have made := request_made libc junk whole
  constructor
  · rintro ⟨text, built⟩
    obtain ⟨writable, rfl, short⟩ := (made text).mp built
    exact ⟨writable, short⟩
  · rintro ⟨writable, short⟩
    exact ⟨_, (made _).mpr ⟨writable, rfl, short⟩⟩

end Statements

/-- A string that closes its quotes and says more. -/
def hostileRecord : List Item :=
  [⟨some (cstr "id"), true, false, .scalar (.string (cstr "x' OR 'a'='a"))⟩,
    ⟨some (cstr "n"), false, true, .nil .int⟩]

end Mopher.Sql
