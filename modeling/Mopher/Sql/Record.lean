import Mopher.Base64
import Mopher.Eval.Exp

/-!
# Records in SQL columns

Model of `sql_values`, which writes a record as literals, and of `sql_unpack` with
`var_scan`, which reads it back.  The writer says `NULL` for a null value.  The
reader takes a column that is `NULL` for a null value and refuses the text `null`,
which is how a null value looks in a dump: the string `null` is such a text, and so
is the blob that base64 writes like that.
-/

set_option autoImplicit false

namespace Mopher.Sql

/-- An item of a scheme. -/
structure Field where
  type : VarType
  key : Bool

/-- What `sql_get_value` returns: a pointer to the text of a column, or `NULL`, and
the memory in front of the text, nearest byte first. -/
structure Column where
  text : Option Bytes
  front : Bytes

/-- `inet_pton` for either family. -/
structure Pton where
  inet : Bytes → Option (BitVec 32)
  inet6 : Bytes → Option In6Addr

def bufLen : Nat := 8192

/-- The codec of `base64.c`. -/
def withBase64 (libc : Libc) : Libc := { libc with base64Encode := Mopher.base64Encode }

section Writing
variable (libc : Libc) (esc : Bytes → Option Bytes)

/-- The text of a value that has data. -/
def valueText (v : Value) : Option Bytes :=
  match v with
  | .scalar (.string text) => some text
  | v => varDumpData (withBase64 libc) bufLen v

/-- The literal of a value; `esc` is `sql_esc_value` into a buffer of `BUFLEN`. -/
def sqlLiteral (v : Value) : Option Bytes :=
  if v.isNull then some (cstr "NULL") else (valueText libc v).bind esc

/-- `sql_values` after `text`: the text in the buffer, and the literals that were
added to it. -/
def sqlValuesFrom (size : Nat) (join : Bytes) : List Value → Bytes → Option (Bytes × List Bytes)
  | [], text => some (text, [])
  | v :: rest, text =>
      match sqlLiteral libc esc v with
      | none => none
      | some literal =>
          let text := text ++ (if text.isEmpty then [] else join) ++ literal
          if size ≤ text.length then none
          else (sqlValuesFrom size join rest text).map fun r => (r.1, literal :: r.2)

def sqlValues (size : Nat) (join : Bytes) (record : List Value) : Option (Bytes × List Bytes) :=
  sqlValuesFrom libc esc size join record []

end Writing

section Reading
variable (libc : Libc) (pton : Pton)

def utilStrtoaddr (text : Bytes) : Option Addr :=
  match pton.inet text with
  | some address => some (.inet address)
  | none => (pton.inet6 text).map .inet6

def blobScan (front text : Bytes) : Option Bytes := base64DecMalloc front text

/-- `var_scan_data`; `none` is `NULL`. -/
def varScanData (type : VarType) (front text : Bytes) : Option Value :=
  if text = cstr "null" then none
  else
    match type with
    | .string => some (.string text)
    | .int => some (.int (strtol text).1)
    | .float => some (.scalar (.float (libc.strtof text)))
    | .addr => (utilStrtoaddr pton text).map fun address => .scalar (.addr address)
    | .blob => (blobScan front text).map fun data => .scalar (.blob data)
    | _ => none

def varScan (type : VarType) (column : Column) : Option Value :=
  match column.text with
  | none => some (.nil type)
  | some text => varScanData libc pton type column.front text

def sqlUnpack : List Field → List Column → Option (List Value)
  | [], _ => some []
  | _ :: _, [] => none
  | field :: scheme, column :: row =>
      if column.text = none ∧ field.key = true then none
      else
        match varScan libc pton field.type column with
        | none => none
        | some v => (sqlUnpack scheme row).map (v :: ·)

end Reading

/-! ## Assumptions and the condition -/

/-- `inet_pton` reads what `inet_ntop` wrote, which has a `.` or a `:` in it;
`inet_ntop` knows two families. -/
structure Inverts (libc : Libc) (pton : Pton) : Prop where
  inet : ∀ address text, libc.inetNtop (.inet address) = some text → pton.inet text = some address
  inet6 : ∀ address text, libc.inetNtop (.inet6 address) = some text →
    pton.inet text = none ∧ pton.inet6 text = some address
  other : ∀ family, libc.inetNtop (.other family) = none
  marked : ∀ address text, libc.inetNtop address = some text → 46 ∈ text ∨ 58 ∈ text

/-- The database keeps the text that a literal was made of, and `NULL`. -/
structure Keeps (esc : Bytes → Option Bytes) (column : Bytes → Option Bytes) : Prop where
  literal : ∀ text literal, esc text = some literal → column literal = some text
  null : column (cstr "NULL") = none

/-- The types of columns other than floating point. -/
def isColumn : VarType → Bool
  | .int => true
  | .string => true
  | .addr => true
  | .blob => true
  | _ => false

/-- A value of a field: it has its type, keys are not null, and a number is a
`long`. -/
structure OfField (field : Field) (v : Value) : Prop where
  column : isColumn field.type = true
  type : v.type = field.type
  key : field.key = true → v.isNull = false
  range : ∀ n, v = .int n → longMin ≤ n ∧ n ≤ longMax

/-- The three bytes that base64 writes as `null`. -/
def nullBlob : Bytes := [158, 233, 101]

/-- The value is read as it was written. -/
def Survives (front : Bytes) (v : Value) : Prop :=
  v ≠ .string (cstr "null") ∧ v ≠ .scalar (.blob nullBlob) ∧
    (v = .scalar (.blob []) → front.head? ≠ some padChar)

/-! ## Numbers -/

/-- The digits of a number. -/
def digitBytes (n : Nat) : Bytes := (Nat.toDigits 10 n).map fun c => UInt8.ofNat c.toNat

theorem isDigit_toNat {c : Char} (digit : c.isDigit = true) : 48 ≤ c.toNat ∧ c.toNat ≤ 57 := by
  simp only [Char.isDigit, Bool.and_eq_true, decide_eq_true_eq] at digit
  exact ⟨digit.1, digit.2⟩

theorem isDigit_digitBytes (n : Nat) : ∀ c ∈ digitBytes n, isDigit c = true := by
  intro c member
  obtain ⟨d, inside, rfl⟩ := List.mem_map.mp member
  obtain ⟨low, high⟩ :=
    isDigit_toNat (Nat.isDigit_of_mem_toDigits (by decide) (by decide) inside)
  simp only [isDigit, Bool.and_eq_true, decide_eq_true_eq, UInt8.le_iff_toNat_le, UInt8.toNat_ofNat']
  have mod : d.toNat % 2 ^ 8 = d.toNat := Nat.mod_eq_of_lt (by omega)
  rw [mod]
  exact ⟨low, high⟩

theorem foldl_digits (digits : List Char) (all : ∀ c ∈ digits, c.isDigit = true) : ∀ start : Nat,
    (digits.map fun c => UInt8.ofNat c.toNat).foldl
        (fun n digit => 10 * n + (digit.toNat - 48)) start =
      digits.foldl (fun n c => 10 * n + (c.toNat - '0'.toNat)) start := by
  induction digits with
  | nil => intro start; rfl
  | cons c digits ih =>
      intro start
      obtain ⟨low, high⟩ := isDigit_toNat (all c (by simp))
      have byte : (UInt8.ofNat c.toNat).toNat = c.toNat := by
        rw [UInt8.toNat_ofNat']
        exact Nat.mod_eq_of_lt (by omega)
      simp only [List.map_cons, List.foldl_cons, byte]
      exact ih (fun d inside => all d (List.mem_cons_of_mem c inside)) _

theorem digitBytes_value (n : Nat) :
    (digitBytes n).foldl (fun n digit => 10 * n + (digit.toNat - 48)) 0 = n := by
  unfold digitBytes
  rw [foldl_digits]
  · exact Nat.ofDigitChars_ten_toDigits
  · intro c inside
    exact Nat.isDigit_of_mem_toDigits (by decide) (by decide) inside

theorem intText_eq (n : Int) :
    intText n = if 0 ≤ n then digitBytes n.toNat else 45 :: digitBytes (-n).toNat := by
  unfold intText cstr
  rw [Int.toString_eq_repr, Int.repr_eq_if]
  split
  · rw [Nat.toList_repr]
    rfl
  · rw [String.toList_append, Nat.toList_repr]
    rfl

theorem isSpace_of_isDigit {c : UInt8} (digit : isDigit c = true) : isSpace c = false := by
  simp only [isDigit, Bool.and_eq_true, decide_eq_true_eq, UInt8.le_iff_toNat_le] at digit
  have low : 48 ≤ c.toNat := digit.1
  simp only [isSpace, Bool.or_eq_false_iff, Bool.and_eq_false_iff, decide_eq_false_iff_not,
    beq_eq_false_iff_ne, UInt8.le_iff_toNat_le]
  refine ⟨fun same => ?_, .inr fun small => ?_⟩
  · have : c.toNat = 32 := congrArg UInt8.toNat same
    omega
  · have : c.toNat ≤ 13 := small
    omega

/-- `strtol` on digits. -/
theorem strtol_digits {digits : Bytes} (all : ∀ c ∈ digits, isDigit c = true) {n : Nat}
    (value : digits.foldl (fun n digit => 10 * n + (digit.toNat - 48)) 0 = n)
    (range : (n : Int) ≤ longMax) : strtol digits = ((n : Int), false) := by
  have whole : digits.takeWhile isDigit = digits := List.takeWhile_eq_self_iff.mpr all
  have small : ¬ (n : Int) > longMax := by omega
  cases digits with
  | nil =>
      cases value
      rfl
  | cons c rest =>
      have digit := all c (by simp)
      have start : (c :: rest).dropWhile isSpace = c :: rest := by
        rw [List.dropWhile_cons, isSpace_of_isDigit digit]
        rfl
      unfold strtol
      rw [start]
      simp only []
      split
      · rename_i same
        cases same
        cases digit
      · rename_i same
        cases same
        cases digit
      · simp only [whole, value, Bool.false_eq_true, if_false, small]

theorem strtol_minus {digits : Bytes} (all : ∀ c ∈ digits, isDigit c = true) {n : Nat}
    (value : digits.foldl (fun n digit => 10 * n + (digit.toNat - 48)) 0 = n)
    (range : longMin ≤ -(n : Int)) : strtol (45 :: digits) = (-(n : Int), false) := by
  have whole : digits.takeWhile isDigit = digits := List.takeWhile_eq_self_iff.mpr all
  have small : ¬ -(n : Int) < longMin := by omega
  have start : ((45 : UInt8) :: digits).dropWhile isSpace = 45 :: digits := rfl
  unfold strtol
  rw [start]
  simp only [whole, value, if_true, small, if_false]

/-- A `long` is read as it was written. -/
theorem strtol_intText {n : Int} (low : longMin ≤ n) (high : n ≤ longMax) :
    strtol (intText n) = (n, false) := by
  rw [intText_eq]
  split
  · rename_i natural
    rw [strtol_digits (isDigit_digitBytes _) (digitBytes_value _) (by omega),
      Int.toNat_of_nonneg natural]
  · rename_i negative
    rw [strtol_minus (isDigit_digitBytes _) (digitBytes_value _) (by omega)]
    rw [Int.toNat_of_nonneg (by omega), neg_neg]

/-! ## Single fields -/

section Fields
variable {libc : Libc} {pton : Pton} {esc : Bytes → Option Bytes} {column : Bytes → Option Bytes}

theorem intText_ne_null {n : Int} (low : longMin ≤ n) (high : n ≤ longMax) :
    intText n ≠ cstr "null" := by
  intro same
  have read := strtol_intText low high
  rw [same] at read
  have zero : n = 0 := by
    have : strtol (cstr "null") = (0, false) := by decide
    rw [this] at read
    exact (congrArg Prod.fst read).symm
  subst zero
  revert same
  decide

theorem address_ne_null (inverts : Inverts libc pton) {address : Addr} {text : Bytes}
    (written : libc.inetNtop address = some text) : text ≠ cstr "null" := by
  rintro rfl
  rcases inverts.marked address _ written with dot | colon
  · revert dot
    decide
  · revert colon
    decide

theorem utilStrtoaddr_inetNtop (inverts : Inverts libc pton) {address : Addr} {text : Bytes}
    (written : libc.inetNtop address = some text) : utilStrtoaddr pton text = some address := by
  unfold utilStrtoaddr
  cases address with
  | inet a => rw [inverts.inet a text written]
  | inet6 a =>
      obtain ⟨not4, six⟩ := inverts.inet6 a text written
      rw [not4, six]
      rfl
  | other family =>
      rw [inverts.other family] at written
      cases written

/-- Only these three bytes are written as `null`. -/
theorem base64Encode_null_iff (data : Bytes) : base64Encode data = cstr "null" ↔ data = nullBlob := by
  constructor
  · intro same
    have read := base64DecMalloc_base64Encode [] data
    rw [same] at read
    have decoded : base64DecMalloc [] (cstr "null") = some nullBlob := by decide
    rw [decoded] at read
    simp only [List.head?_nil, reduceCtorEq, and_false, if_false, Option.some.injEq] at read
    exact read.symm
  · rintro rfl
    decide

theorem fitting_some {size : Nat} {text text' : Bytes} (fits : fitting size text = some text') :
    text' = text := by
  unfold fitting at fits
  split at fits
  · cases fits
  · cases fits
    rfl

theorem survives_of_ne_blob {front : Bytes} {data : Scalar}
    (string : data ≠ .string (cstr "null")) (blob : ∀ b, data ≠ .blob b) :
    Survives front (.scalar data) := by
  refine ⟨?_, ?_, ?_⟩
  · intro same
    exact string (Value.scalar.inj same)
  · intro same
    exact blob nullBlob (Value.scalar.inj same)
  · intro same
    exact (blob [] (Value.scalar.inj same)).elim

/-- A text is read as the value it was written for, or not at all. -/
theorem varScanData_iff (inverts : Inverts libc pton) {field : Field} {data : Scalar}
    (of : OfField field (.scalar data)) {text : Bytes}
    (written : valueText libc (.scalar data) = some text) (front : Bytes) :
    varScanData libc pton field.type front text = some (.scalar data) ↔
      Survives front (.scalar data) := by
  have column := of.column
  rw [← of.type] at column ⊢
  unfold varScanData
  cases data with
  | string s =>
      have same : text = s := (Option.some.inj written).symm
      rw [same]
      by_cases null : s = cstr "null"
      · rw [if_pos null]
        refine iff_of_false (by simp) fun survives => survives.1 ?_
        rw [null]
      · rw [if_neg null]
        refine iff_of_true rfl (survives_of_ne_blob ?_ ?_)
        · intro same
          exact null (Scalar.string.inj same)
        · intro b same
          cases same
  | int n =>
      obtain ⟨low, high⟩ := of.range n rfl
      have same : text = intText n := fitting_some written
      rw [same, if_neg (intText_ne_null low high)]
      refine iff_of_true ?_ (survives_of_ne_blob ?_ ?_)
      · simp only [Value.type_scalar, Scalar.type, strtol_intText low high]
      · intro same
        cases same
      · intro b same
        cases same
  | addr a =>
      obtain ⟨text', named, fits⟩ := Option.bind_eq_some_iff.mp written
      have same : text = text' := fitting_some fits
      rw [same, if_neg (address_ne_null inverts named)]
      refine iff_of_true ?_ (survives_of_ne_blob ?_ ?_)
      · simp only [Value.type_scalar, Scalar.type, utilStrtoaddr_inetNtop inverts named,
          Option.map_some]
      · intro same
        cases same
      · intro b same
        cases same
  | blob b =>
      have same : text = base64Encode b := fitting_some written
      rw [same]
      by_cases null : b = nullBlob
      · rw [if_pos ((base64Encode_null_iff b).mpr null)]
        refine iff_of_false (by simp) fun survives => survives.2.1 ?_
        rw [null]
      · rw [if_neg fun same => null ((base64Encode_null_iff b).mp same)]
        simp only [Value.type_scalar, Scalar.type, blobScan, base64DecMalloc_base64Encode]
        by_cases refused : b = [] ∧ front.head? = some padChar
        · rw [if_pos refused]
          refine iff_of_false (by simp) fun survives => survives.2.2 ?_ refused.2
          rw [refused.1]
        · rw [if_neg refused]
          refine iff_of_true rfl ⟨?_, ?_, ?_⟩
          · intro same
            cases same
          · intro same
            exact null (Scalar.blob.inj (Value.scalar.inj same))
          · intro same padded
            exact refused ⟨Scalar.blob.inj (Value.scalar.inj same), padded⟩
  | table n => cases column
  | float p => cases column
  | pointer p => cases column

/-- A field is read as it was written exactly when it survives; a key that was
written is not null. -/
theorem field_iff (inverts : Inverts libc pton) (keeps : Keeps esc column) {field : Field} {v : Value}
    (of : OfField field v) {literal : Bytes} (written : sqlLiteral libc esc v = some literal)
    {c : Column} (stored : c.text = column literal) :
    ¬ (c.text = none ∧ field.key = true) ∧
      (varScan libc pton field.type c = some v ↔ Survives c.front v) := by
  cases v with
  | nil t =>
      cases written
      rw [keeps.null] at stored
      have type : t = field.type := of.type
      refine ⟨?_, iff_of_true ?_ ⟨?_, ?_, ?_⟩⟩
      · rintro ⟨_, key⟩
        cases of.key key
      · simp only [varScan, stored, type]
      · intro same
        cases same
      · intro same
        cases same
      · intro same
        cases same
  | list items =>
      have column := of.column
      rw [← of.type] at column
      cases column
  | scalar data =>
      obtain ⟨text, texted, escaped⟩ := Option.bind_eq_some_iff.mp written
      rw [keeps.literal text literal escaped] at stored
      refine ⟨?_, ?_⟩
      · rintro ⟨absent, _⟩
        rw [stored] at absent
        cases absent
      · simp only [varScan, stored]
        exact varScanData_iff inverts of texted c.front

end Fields

/-! ## Records -/

section Records
variable {libc : Libc} {pton : Pton} {esc : Bytes → Option Bytes} {column : Bytes → Option Bytes}

theorem sqlUnpack_cons_iff {field : Field} {scheme : List Field} {c : Column} {row : List Column}
    {v : Value} {record : List Value} (readable : ¬ (c.text = none ∧ field.key = true)) :
    sqlUnpack libc pton (field :: scheme) (c :: row) = some (v :: record) ↔
      varScan libc pton field.type c = some v ∧ sqlUnpack libc pton scheme row = some record := by
  rw [sqlUnpack, if_neg readable]
  cases varScan libc pton field.type c with
  | none => simp
  | some u =>
      simp only [Option.map_eq_some_iff, List.cons.injEq, Option.some.injEq]
      constructor
      · rintro ⟨record', unpacked, same, rfl⟩
        exact ⟨same, unpacked⟩
      · rintro ⟨same, unpacked⟩
        exact ⟨record, unpacked, same, rfl⟩

/-- A record that `sql_values` wrote is unpacked as it was exactly when every field
survives: no string is `null`, no blob is the one that base64 writes as `null`, and
no padding stands in front of the text of an empty blob. -/
theorem record_round_trip_iff (inverts : Inverts libc pton) (keeps : Keeps esc column)
    {scheme : List Field} {record : List Value} (ofScheme : List.Forall₂ OfField scheme record)
    {size : Nat} {join text : Bytes} {literals : List Bytes}
    (written : sqlValues libc esc size join record = some (text, literals)) {row : List Column}
    (stored : row.map Column.text = literals.map column) :
    sqlUnpack libc pton scheme row = some record ↔
      ∀ field ∈ record.zip row, Survives field.2.front field.1 := by
  unfold sqlValues at written
  revert written
  generalize ([] : Bytes) = start
  induction ofScheme generalizing start literals row with
  | nil =>
      intro _
      exact iff_of_true rfl (by simp)
  | @cons field v scheme record of _ ih =>
      intro written
      rw [sqlValuesFrom] at written
      cases wrote : sqlLiteral libc esc v with
      | none =>
          rw [wrote] at written
          cases written
      | some literal =>
          simp only [wrote] at written
          generalize start ++ (if start.isEmpty = true then [] else join) ++ literal = next at written
          split at written
          · cases written
          · obtain ⟨⟨text', literals'⟩, rest, same⟩ := Option.map_eq_some_iff.mp written
            cases same
            cases row with
            | nil => cases stored
            | cons c row =>
                simp only [List.map_cons, List.cons.injEq] at stored
                obtain ⟨readable, survives⟩ := field_iff inverts keeps of wrote stored.1
                rw [sqlUnpack_cons_iff readable, survives, ih stored.2 _ rest, List.zip_cons_cons,
                  List.forall_mem_cons]

end Records

/-! ## A small database -/

def loopback : Addr := .inet 0x7f000001#32

/-- Only one address can be written. -/
def loopbackLibc : Libc :=
  { plainLibc with
    inetNtop := fun address => if address = loopback then some (cstr "127.0.0.1") else none }

def loopbackPton : Pton where
  inet text := if text = cstr "127.0.0.1" then some 0x7f000001#32 else none
  inet6 _ := none

theorem loopback_written {address : Addr} {text : Bytes}
    (written : loopbackLibc.inetNtop address = some text) :
    address = loopback ∧ text = cstr "127.0.0.1" := by
  simp only [loopbackLibc] at written
  split at written
  · cases written
    exact ⟨by assumption, rfl⟩
  · cases written

theorem loopback_inverts : Inverts loopbackLibc loopbackPton where
  inet address text written := by
    obtain ⟨same, rfl⟩ := loopback_written written
    cases same
    rfl
  inet6 address text written := by
    obtain ⟨same, _⟩ := loopback_written written
    cases same
  other family := by
    unfold loopbackLibc loopback
    simp
  marked address text written := by
    obtain ⟨_, rfl⟩ := loopback_written written
    decide

/-- A literal is the text in quotes. -/
def quote (text : Bytes) : Option Bytes := some (39 :: text ++ [39])

def unquote (literal : Bytes) : Option Bytes :=
  if literal.head? = some 39 then some literal.tail.dropLast else none

theorem unquote_keeps : Keeps quote unquote where
  literal text literal quoted := by
    cases quoted
    simp [unquote]
  null := by decide

/-- An address as the key, an empty string, a null number and an empty blob. -/
theorem plain_record_round_trips :
    sqlUnpack loopbackLibc loopbackPton
        [⟨.addr, true⟩, ⟨.string, false⟩, ⟨.int, false⟩, ⟨.blob, false⟩]
        [⟨some (cstr "127.0.0.1"), []⟩, ⟨some [], []⟩, ⟨none, []⟩, ⟨some [], []⟩] =
      some [.scalar (.addr loopback), .string [], .nil .int, .scalar (.blob [])] := by
  have ofScheme : List.Forall₂ OfField
      [⟨.addr, true⟩, ⟨.string, false⟩, ⟨.int, false⟩, ⟨.blob, false⟩]
      [.scalar (.addr loopback), .string [], .nil .int, .scalar (.blob [])] := by
    refine .cons ⟨rfl, rfl, fun _ => rfl, ?_⟩ (.cons ⟨rfl, rfl, fun _ => rfl, ?_⟩
      (.cons ⟨rfl, rfl, fun key => (by cases key), ?_⟩ (.cons ⟨rfl, rfl, fun _ => rfl, ?_⟩ .nil)))
    all_goals intro _ impossible
    all_goals cases impossible
  have written : sqlValues loopbackLibc quote bufLen (cstr ",")
        [.scalar (.addr loopback), .string [], .nil .int, .scalar (.blob [])] =
      some (cstr "'127.0.0.1','',NULL,''",
        [cstr "'127.0.0.1'", cstr "''", cstr "NULL", cstr "''"]) := by
    decide +kernel
  apply (record_round_trip_iff loopback_inverts unquote_keeps ofScheme written ?_).mpr
  · intro field member
    simp only [List.zip_cons_cons, List.zip_nil_left, List.mem_cons, List.not_mem_nil, or_false] at member
    rcases member with rfl | rfl | rfl | rfl
    · refine ⟨?_, ?_, ?_⟩ <;> intro same <;> cases same
    · refine ⟨?_, ?_, ?_⟩ <;> intro same
      · exact absurd (Scalar.string.inj (Value.scalar.inj same)) (by decide)
      · cases same
      · cases same
    · refine ⟨?_, ?_, ?_⟩ <;> intro same <;> cases same
    · refine ⟨?_, ?_, ?_⟩ <;> intro same
      · cases same
      · exact absurd (Scalar.blob.inj (Value.scalar.inj same)) (by decide)
      · simp
  · decide +kernel

/-- The string `null` is written like any other and cannot be read. -/
theorem string_null_is_unreadable :
    Inverts loopbackLibc loopbackPton ∧ Keeps quote unquote ∧
    (sqlValues loopbackLibc quote bufLen (cstr ",")
        [.string (cstr "k"), .string (cstr "null")]).map (fun written => written.2.map unquote) =
      some [some (cstr "k"), some (cstr "null")] ∧
    (sqlUnpack loopbackLibc loopbackPton [⟨.string, true⟩, ⟨.string, false⟩]
      [⟨some (cstr "k"), []⟩, ⟨some (cstr "null"), []⟩]).isNone = true := by
  refine ⟨loopback_inverts, unquote_keeps, ?_, ?_⟩
  · decide +kernel
  · decide +kernel

end Mopher.Sql
