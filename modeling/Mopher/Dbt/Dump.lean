import Mopher.Var.Room
import Mopher.Sql.Record

/-!
# Dumps of tables

`dbt_dump` over the walk of a driver.  A walk calls a function with each stored record, as
far as it can be unpacked.  What the function returns is only logged, or ends the walk, and
`dbt_dump` looks at neither: a record that is not rendered is left out of the dump.
-/

set_option autoImplicit false

namespace Mopher.Dump

open CBuffer

/-! ## Walks -/

/-- A table as its driver walks it: what unpacking makes of each stored record, in the order
of the walk. -/
structure WalkedTable (V : Type) where
  entries : List (Option V)
  /-- `sql_db_walk` and `mongodb_walk` end with a callback that fails; the others go on. -/
  stops : Bool
  /-- What is returned behind the last record. -/
  last : Int
  /-- `dbt_lock` -/
  locks : Bool
  cfDbtFatalErrors : Bool

/-- What a walk returns, the records that the callback was called with, and the variables
that the callback uses. -/
structure Walked (S V : Type) where
  status : Int
  visited : List V
  state : S

section Walk
variable {S V : Type}

/-- The loop of `dd_walk`. -/
def ddWalk (stops : Bool) (last : Int) (callback : S → V → Int × S) : List (Option V) → S → Walked S V
  | [], state => ⟨last, [], state⟩
  | none :: _, state => ⟨-1, [], state⟩
  | some record :: rest, state =>
      let (status, state) := callback state record
      if status ≠ 0 && stops then ⟨-1, [record], state⟩
      else
        let walked := ddWalk stops last callback rest state
        { walked with visited := record :: walked.visited }

/-- `dbt_db_walk`; where it calls `log_die` there are only the records visited before. -/
def dbtDbWalk (table : WalkedTable V) (callback : S → V → Int × S) (state : S) :
    Except (List V) (Walked S V) :=
  if !table.locks then .ok ⟨-1, [], state⟩
  else
    let walked := ddWalk table.stops table.last callback table.entries state
    if walked.status < 0 && table.cfDbtFatalErrors then .error walked.visited else .ok walked

end Walk

/-- The static variables of a dump: what `*dump` is and how long. -/
structure DumpState (β : Type) where
  buffer : Option β
  size : Int

/-- What a dump returns, what `*dump` is then, and the records that were dumped. -/
structure Dumped (β V : Type) where
  size : Int
  dump : Option β
  visited : List V

/-- The frame of `dbt_dump` and of `greylist_dump`, with the lock of the mutex. -/
def dumpTable {β V : Type} (mutex : Bool) (dump : Option β) (table : WalkedTable V)
    (dumpRecord : DumpState β → V → Int × DumpState β) : Except (List V) (Dumped β V) :=
  if !mutex then .ok ⟨-1, dump, []⟩
  else
    match dump with
    | some buffer => .ok ⟨-1, some buffer, []⟩
    | none =>
        (dbtDbWalk table dumpRecord ⟨none, 0⟩).map fun walked =>
          if walked.state.size = -1 then ⟨-1, none, walked.visited⟩
          else ⟨walked.state.size, walked.state.buffer, walked.visited⟩

/-- The records that were visited, also if the process has ended. -/
def visitedBy {β V : Type} : Except (List V) (Dumped β V) → List V
  | .error visited => visited
  | .ok dumped => dumped.visited

/-! ## `dbt_dump` -/

/-- `BUFLEN` of `dbt.c`. -/
def dumpBufLen : Int := 8192

def newline : UInt8 := 10

/-- A stored record, and whether memory is left when it is dumped. -/
structure Stored where
  record : Data
  memory : Bool

/-- `realloc`; a negative number is a very large `size_t`. -/
def realloc (memory : Bool) (request : Int) : Bool := memory && decide (0 ≤ request)

/-- `snprintf` of a line: the record is read up to its NUL. -/
def lineOf (junk : Nat → UInt8) (buffer : Writes) (len : Int) : Bytes :=
  ((contents junk buffer (len + 1).toNat).takeWhile (· ≠ 0) ++ [newline]).take (len + 1).toNat

def dbtDumpRecord (libc : Libc) (junk : Nat → UInt8) (state : DumpState Writes) (stored : Stored) :
    Int × DumpState Writes :=
  let (len, buffer) := varDumpData libc stored.record untouched 0 dumpBufLen
  if len = -1 then (-1, state)
  else if !realloc stored.memory (cInt (state.size + len + 2)) then (-1, { state with buffer := none })
  else
    (0, {
      buffer := some (puts (state.buffer.getD untouched) state.size (lineOf junk buffer len ++ [0]))
      size := cInt (state.size + (len + 1)) })

/-- `dbt_dump`; `known` is whether `dbt_lookup` finds the table. -/
def dbtDump (libc : Libc) (junk : Nat → UInt8) (known mutex : Bool) (dump : Option Writes)
    (table : WalkedTable Stored) : Except (List Stored) (Dumped Writes Stored) :=
  if !known then .ok ⟨-1, dump, []⟩ else dumpTable mutex dump table (dbtDumpRecord libc junk)

/-! ## What a dump is for -/

/-- One line for each stored record, in the order of the walk; an empty table has no buffer. -/
def CompleteDump {β V : Type} (entries : List (Option V)) (line : V → Option Bytes)
    (holds : β → Bytes → Prop) (dumped : Dumped β V) : Prop :=
  ∃ lines : List Bytes, entries.map (·.bind line) = lines.map some ∧
    dumped.size = lines.flatten.length ∧
    match dumped.dump with
    | none => lines = []
    | some buffer => holds buffer lines.flatten

/-- If a dump returns, it fails and hands nothing out, or it is complete. -/
def CompleteOrFails {β V : Type} (dump : Option β) (entries : List (Option V)) (line : V → Option Bytes)
    (holds : β → Bytes → Prop) : Except (List V) (Dumped β V) → Prop
  | .error _ => True
  | .ok dumped => (dumped.size = -1 ∧ dumped.dump = dump) ∨ CompleteDump entries line holds dumped

section DbtDump
variable (libc : Libc) (junk : Nat → UInt8)

def recordLine (stored : Stored) : Option Bytes := (render libc stored.record).map (· ++ [newline])

/-- The block has room for the text and its NUL. -/
def HoldsLines (buffer : Writes) (text : Bytes) : Prop :=
  HoldsText buffer text ∧ Within buffer (text.length + 1)

/-- `dbt_dump` is complete or fails, and no record is written past the buffer on the stack. -/
structure DbtDumpSound (known mutex : Bool) (dump : Option Writes) (table : WalkedTable Stored) : Prop where
  complete : CompleteOrFails dump table.entries (recordLine libc) HoldsLines
    (dbtDump libc junk known mutex dump table)
  inside : ∀ stored ∈ visitedBy (dbtDump libc junk known mutex dump table),
    Within (varDumpData libc stored.record untouched 0 dumpBufLen).2 dumpBufLen

/-- The text of a record is shorter than the buffer on the stack, and no comma is missing. -/
def FitsLine (record : Data) : Prop :=
  Separated libc record ∧ ∃ text, render libc record = some text ∧ (text.length : Int) < dumpBufLen

/-- All records unpack and fit, there is memory for them, and the whole dump has an `int` as
its length. -/
def AllFit (entries : List (Option Stored)) : Prop :=
  ∃ (records : List Stored) (lines : List Bytes), entries = records.map some ∧
    records.map (recordLine libc) = lines.map some ∧
    (∀ stored ∈ records, stored.memory = true ∧ FitsLine libc stored.record) ∧
    (lines.flatten.length : Int) + 1 < 2 ^ 31

/-- What a record adds to a count, without its newline. -/
def added (size : Int) (stored : Stored) : Option Nat :=
  match fate libc stored.record dumpBufLen with
  | .taken bytes => if stored.memory && decide (size + bytes + 2 < 2 ^ 31) then some bytes else none
  | _ => none

/-- The walk fails, and no record in front of the failure gets past its buffer. -/
def FailsInside (stops : Bool) (last : Int) : Int → List (Option Stored) → Prop
  | _, [] => last < 0
  | _, none :: _ => True
  | size, some stored :: rest =>
      fate libc stored.record dumpBufLen ≠ .overrun ∧
        match added libc size stored with
        | none => stops = true ∨ FailsInside stops last size rest
        | some bytes => FailsInside stops last (size + (bytes + 1)) rest

/-- The tables that `dbt_dump` gets right: it fails before the walk, or all records fit, or
the process ends in a walk that fails. -/
def DbtDumpable (known mutex : Bool) (dump : Option Writes) (table : WalkedTable Stored) : Prop :=
  known = false ∨ mutex = false ∨ dump ≠ none ∨
    ((table.locks = true ∨ table.entries = []) ∧ AllFit libc table.entries) ∨
    (table.locks = true ∧ table.cfDbtFatalErrors = true ∧
      FailsInside libc table.stops table.last 0 table.entries)

/-- What `inet_ntop` and `snprintf` return are C strings. -/
structure CTexts : Prop where
  inetNtop : ∀ address text, libc.inetNtop address = some text → 0 ∉ text
  floatText : ∀ pattern, 0 ∉ libc.floatText pattern
  pointerText : ∀ address, 0 ∉ libc.pointerText address

end DbtDump

/-! ## Walks that keep an invariant -/

section WalkRules
variable {S V : Type} {stops : Bool} {last : Int} {callback : S → V → Int × S}

theorem ddWalk_some (record : V) (rest : List (Option V)) (state : S) :
    ddWalk stops last callback (some record :: rest) state =
      if (callback state record).1 ≠ 0 && stops then ⟨-1, [record], (callback state record).2⟩
      else
        { ddWalk stops last callback rest (callback state record).2 with
          visited := record :: (ddWalk stops last callback rest (callback state record).2).visited } :=
  rfl

theorem ddWalk_some_state (record : V) (rest : List (Option V)) (state : S) :
    (ddWalk stops last callback (some record :: rest) state).state =
      if (callback state record).1 ≠ 0 && stops then (callback state record).2
      else (ddWalk stops last callback rest (callback state record).2).state := by
  rw [ddWalk_some]
  split
  · rfl
  · rfl

theorem ddWalk_some_status (record : V) (rest : List (Option V)) (state : S) :
    (ddWalk stops last callback (some record :: rest) state).status =
      if (callback state record).1 ≠ 0 && stops then -1
      else (ddWalk stops last callback rest (callback state record).2).status := by
  rw [ddWalk_some]
  split
  · rfl
  · rfl

theorem ddWalk_some_visited (record : V) (rest : List (Option V)) (state : S) :
    (ddWalk stops last callback (some record :: rest) state).visited =
      record :: if (callback state record).1 ≠ 0 && stops then []
        else (ddWalk stops last callback rest (callback state record).2).visited := by
  rw [ddWalk_some]
  split
  · rfl
  · rfl

/-- What every call of the callback keeps is kept by the walk. -/
theorem ddWalk_keeps {Holds : S → Prop} {Allowed : V → Prop}
    (keeps : ∀ state record, Holds state → Allowed record → Holds (callback state record).2) :
    ∀ (entries : List (Option V)) (state : S), Holds state →
      (∀ record ∈ (ddWalk stops last callback entries state).visited, Allowed record) →
      Holds (ddWalk stops last callback entries state).state
  | [], state, holds, _ => holds
  | none :: _, state, holds, _ => holds
  | some record :: rest, state, holds, allowed => by
      rw [ddWalk_some_visited] at allowed
      rw [ddWalk_some_state]
      have next := keeps state record holds (allowed record (by simp))
      split
      · exact next
      next goes =>
        rw [if_neg goes] at allowed
        exact ddWalk_keeps keeps rest _ next fun other visited =>
          allowed other (List.mem_cons_of_mem record visited)

/-- A walk over records that all add their lines; `shown` is the state that has a text. -/
theorem ddWalk_lines {shown : Bytes → S} {line : V → Option Bytes} : ∀ (records : List V)
    (lines : List Bytes) (front : Bytes), records.map line = lines.map some →
    (∀ record ∈ records, ∀ (added text : Bytes), line record = some added →
      text.length + added.length ≤ front.length + lines.flatten.length →
      callback (shown text) record = (0, shown (text ++ added))) →
    ddWalk stops last callback (records.map some) (shown front) =
      ⟨last, records, shown (front ++ lines.flatten)⟩
  | [], lines, front, each, _ => by
      obtain rfl : lines = [] := by simpa using each.symm
      rw [List.flatten_nil, List.append_nil]
      rfl
  | record :: records, [], front, each, _ => by cases each
  | record :: records, added :: lines, front, each, adds => by
      obtain ⟨first, others⟩ := List.cons.inj each
      have called := adds record (by simp) added front first (by simp)
      have later := ddWalk_lines records lines (front ++ added) others
        fun other among next text line' short => adds other (List.mem_cons_of_mem record among) next text line' (by
          simp only [List.length_append] at short
          simp only [List.flatten_cons, List.length_append]
          omega)
      rw [List.map_cons, ddWalk_some, called, if_neg (by simp), later]
      simp

end WalkRules

theorem lines_of_records {V : Type} (line : V → Option Bytes) (records : List V) :
    (records.map some).map (·.bind line) = records.map line := by
  rw [List.map_map]
  rfl

section Frame
variable {β V : Type} {mutex : Bool} {dump : Option β} {table : WalkedTable V}
  {dumpRecord : DumpState β → V → Int × DumpState β}

theorem dumpTable_early (early : mutex = false ∨ dump ≠ none) :
    dumpTable mutex dump table dumpRecord = .ok ⟨-1, dump, []⟩ := by
  cases mutex with
  | false => rfl
  | true =>
      cases dump with
      | some buffer => rfl
      | none => simp at early

theorem dumpTable_unlocked (unlocked : table.locks = false) :
    dumpTable true none table dumpRecord = .ok ⟨0, none, []⟩ := by
  unfold dumpTable dbtDbWalk
  rw [unlocked]
  rfl

theorem dumpTable_fatal (locks : table.locks = true) (fatal : table.cfDbtFatalErrors = true)
    (fails : (ddWalk table.stops table.last dumpRecord table.entries ⟨none, 0⟩).status < 0) :
    dumpTable true none table dumpRecord =
      .error (ddWalk table.stops table.last dumpRecord table.entries ⟨none, 0⟩).visited := by
  unfold dumpTable dbtDbWalk
  simp only [locks, fatal, fails, decide_true, Bool.and_self, Bool.not_true, Bool.false_eq_true,
    if_false, if_true]
  rfl

theorem dumpTable_walked (locks : table.locks = true)
    (goes : ¬ (table.cfDbtFatalErrors = true ∧
      (ddWalk table.stops table.last dumpRecord table.entries ⟨none, 0⟩).status < 0))
    {walked : Walked (DumpState β) V}
    (walk : ddWalk table.stops table.last dumpRecord table.entries ⟨none, 0⟩ = walked) :
    dumpTable true none table dumpRecord =
      .ok (if walked.state.size = -1 then ⟨-1, none, walked.visited⟩
        else ⟨walked.state.size, walked.state.buffer, walked.visited⟩) := by
  rw [walk] at goes
  have goes' : ¬ ((decide (walked.status < 0) && table.cfDbtFatalErrors) = true) := by
    simpa [and_comm] using goes
  unfold dumpTable dbtDbWalk
  simp only [locks, Bool.not_true, Bool.false_eq_true, if_false, walk, goes']
  rfl

/-- Nothing was dumped, which is all there is of an empty table. -/
theorem completeDump_none {entries : List (Option V)} {line : V → Option Bytes}
    {holds : β → Bytes → Prop} {visited : List V} :
    CompleteDump entries line holds ⟨0, none, visited⟩ ↔ entries = [] := by
  constructor
  · rintro ⟨lines, each, -, none'⟩
    obtain rfl : lines = [] := none'
    simpa using each
  · rintro rfl
    exact ⟨[], rfl, rfl, rfl⟩

end Frame

/-! ## Texts without a NUL -/

section Texts
variable {libc : Libc}

theorem intText_ne_nul (number : Int) : 0 ∉ intText number := by
  have digits (n : Nat) : 0 ∉ Sql.digitBytes n := fun member => by
    have digit := Sql.isDigit_digitBytes n 0 member
    revert digit
    decide
  rw [Sql.intText_eq]
  split
  · exact digits _
  · exact List.not_mem_cons_of_ne_of_not_mem (by decide) (digits _)

theorem datumText_ne_nul (texts : CTexts libc) {datum : Datum} {text : Bytes}
    (rendered : datumText libc datum = some text) : 0 ∉ text := by
  cases datum with
  | int number =>
      obtain rfl : intText number = text := Option.some.inj rendered
      exact intText_ne_nul number
  | float pattern =>
      obtain rfl : libc.floatText pattern = text := Option.some.inj rendered
      exact texts.floatText pattern
  | string source =>
      obtain rfl : source.text = text := Option.some.inj rendered
      exact source.terminated
  | addr address => exact texts.inetNtop address text rendered
  | blob blob =>
      obtain rfl : rfc4648 blob.data = text := Option.some.inj rendered
      rw [← base64Encode_eq_rfc4648]
      exact fun member => base64Encode_ne_nul blob.data 0 member rfl
  | pointer address =>
      obtain rfl : libc.pointerText address = text := Option.some.inj rendered
      exact texts.pointerText address
  | badType => cases rendered

theorem elementText_ne_nul {table : Bool} {name : Option CString} {text : Bytes} (terminated : 0 ∉ text) :
    0 ∉ elementText table name text := by
  cases table with
  | false => exact terminated
  | true =>
      have equals : (0 : UInt8) ≠ equalsSign := by decide
      have before : 0 ∉ nameText name := by
        cases name with
        | none => exact List.not_mem_nil
        | some name => exact name.terminated
      have shown : elementText true name text = nameText name ++ equalsSign :: text := rfl
      rw [shown, List.mem_append, List.mem_cons]
      simp [before, equals, terminated]

theorem following_ne_nul {pieces : List Bytes} (terminated : ∀ piece ∈ pieces, 0 ∉ piece) :
    0 ∉ following pieces := by
  have separator : (0 : UInt8) ≠ comma := by decide
  intro member
  obtain ⟨piece, among, inside⟩ := List.mem_flatMap.mp member
  rcases List.mem_cons.mp inside with same | inside
  · exact separator same
  · exact terminated piece among inside

theorem intercalate_ne_nul {pieces : List Bytes} (terminated : ∀ piece ∈ pieces, 0 ∉ piece) :
    0 ∉ [comma].intercalate pieces := by
  cases pieces with
  | nil => simp
  | cons piece pieces =>
      rw [intercalate_cons, List.mem_append, not_or]
      exact ⟨terminated piece (by simp),
        following_ne_nul fun other among => terminated other (List.mem_cons_of_mem piece among)⟩

mutual

theorem render_ne_nul (libc : Libc) (texts : CTexts libc) : ∀ (data : Data) (text : Bytes),
    render libc data = some text → 0 ∉ text
  | .null, text, rendered => by
      obtain rfl : cstr "null" = text := Option.some.inj rendered
      decide
  | .datum datum, text, rendered => datumText_ne_nul texts rendered
  | .collection table elements, text, rendered => by
      rw [render] at rendered
      obtain ⟨pieces, each, rfl⟩ := Option.map_eq_some_iff.mp rendered
      have opened : (0 : UInt8) ≠ opening table := by cases table <;> decide
      have closed : (0 : UInt8) ≠ closing table := by cases table <;> decide
      have inside := intercalate_ne_nul (renderElements_ne_nul libc texts table elements pieces each)
      simp [opened, closed, inside]

theorem renderElements_ne_nul (libc : Libc) (texts : CTexts libc) (table : Bool) :
    ∀ (elements : List (Option CString × Data)) (pieces : List Bytes),
    renderElements libc table elements = some pieces → ∀ piece ∈ pieces, 0 ∉ piece
  | [], pieces, each, piece, among => by
      obtain rfl : [] = pieces := Option.some.inj each
      cases among
  | (name, data) :: rest, pieces, each, piece, among => by
      obtain ⟨text, later, rendered, others, rfl⟩ := renderElements_cons each
      rcases List.mem_cons.mp among with rfl | among
      · exact elementText_ne_nul (render_ne_nul libc texts data text rendered)
      · exact renderElements_ne_nul libc texts table rest later others piece among

end

end Texts

/-! ## What a record adds -/

section Record
variable {libc : Libc} {junk : Nat → UInt8} {state : DumpState Writes} {stored : Stored}

theorem elementsFate_lt (libc : Libc) (table : Bool) : ∀ (elements : List (Option CString × Data))
    (size : Int) (len bytes : Nat), elementsFate libc table elements size len = .taken bytes →
    (bytes : Int) < size
  | [], size, len, bytes, ending => by
      rw [elementsFate] at ending
      split at ending
      · cases ending
      · have count := Fate.taken.inj ending
        split at count
        · omega
        · omega
  | (name, data) :: rest, size, len, bytes, ending => by
      rw [elementsFate] at ending
      split at ending
      · cases ending
      · split at ending
        · cases ending
        · cases ending
        · exact elementsFate_lt libc table rest size _ bytes ending

/-- What is taken is below the size, which `null` does not look at. -/
theorem fate_lt {data : Data} {size : Int} {bytes : Nat} (null : 4 < size)
    (ending : fate libc data size = .taken bytes) : (bytes : Int) < size := by
  cases data with
  | null =>
      have count : 4 = bytes := Fate.taken.inj ending
      omega
  | datum datum =>
      rw [fate, datumFate] at ending
      split at ending
      · cases ending
      · split at ending
        · cases ending
        · split at ending
          · cases ending
          · have count := Fate.taken.inj ending
            omega
  | collection table elements =>
      rw [fate] at ending
      exact elementsFate_lt libc table elements size 1 bytes ending

theorem dump_follows (libc : Libc) (record : Data) : Follows dumpBufLen
    (varDumpData libc record untouched 0 dumpBufLen) (fate libc record dumpBufLen) :=
  varDumpData_follows libc record untouched 0 dumpBufLen dumpBufLen within_untouched (Int.le_refl 0)
    (Int.zero_add _) (by decide) (by decide)

theorem added_eq_some {size : Int} {bytes : Nat} : added libc size stored = some bytes ↔
    fate libc stored.record dumpBufLen = .taken bytes ∧ stored.memory = true ∧
      size + bytes + 2 < 2 ^ 31 := by
  unfold added
  cases fate libc stored.record dumpBufLen with
  | refused => simp
  | overrun => simp
  | taken count =>
      simp only [Bool.and_eq_true, decide_eq_true_eq, Option.ite_none_right_eq_some, Option.some.injEq,
        Fate.taken.injEq]
      constructor
      · rintro ⟨room, rfl⟩
        exact ⟨rfl, room⟩
      · rintro ⟨rfl, room⟩
        exact ⟨room, rfl⟩

theorem within_iff : Within (varDumpData libc stored.record untouched 0 dumpBufLen).2 dumpBufLen ↔
    fate libc stored.record dumpBufLen ≠ .overrun := by
  have follows := dump_follows libc stored.record
  cases ending : fate libc stored.record dumpBufLen with
  | refused =>
      rw [ending] at follows
      simp [follows.2]
  | overrun =>
      rw [ending] at follows
      have outside : ¬ Within (varDumpData libc stored.record untouched 0 dumpBufLen).2 dumpBufLen := follows
      simp [outside]
  | taken bytes =>
      rw [ending] at follows
      simp [follows.2]

/-- A record that does not get past its buffer adds nothing and is reported, or adds what it
takes and a newline. -/
theorem dbtDumpRecord_cases (junk : Nat → UInt8) (low : 0 ≤ state.size) (high : state.size + 1 < 2 ^ 31)
    (inside : Within (varDumpData libc stored.record untouched 0 dumpBufLen).2 dumpBufLen) :
    (added libc state.size stored = none ∧ (dbtDumpRecord libc junk state stored).1 = -1 ∧
      (dbtDumpRecord libc junk state stored).2.size = state.size) ∨
    ∃ bytes : Nat, added libc state.size stored = some bytes ∧
      (dbtDumpRecord libc junk state stored).1 = 0 ∧
      (dbtDumpRecord libc junk state stored).2.size = state.size + (bytes + 1) := by
  have follows := dump_follows libc stored.record
  unfold dbtDumpRecord
  generalize varDumpData libc stored.record untouched 0 dumpBufLen = call at follows inside
  obtain ⟨len, buffer⟩ := call
  simp only []
  cases ending : fate libc stored.record dumpBufLen with
  | refused =>
      rw [ending] at follows
      rw [if_pos follows.1]
      refine .inl ⟨?_, rfl, rfl⟩
      rw [added, ending]
  | overrun =>
      rw [ending] at follows
      exact (follows inside).elim
  | taken bytes =>
      rw [ending] at follows
      obtain rfl : len = bytes := follows.1
      have below : (bytes : Int) < 8192 := fate_lt (by decide) ending
      have room : realloc stored.memory (cInt (state.size + bytes + 2)) =
          (stored.memory && decide (state.size + bytes + 2 < 2 ^ 31)) := by
        unfold realloc
        congr 1
        rw [decide_eq_decide]
        by_cases large : state.size + bytes + 2 < 2 ^ 31
        · rw [cInt_of_bounds (by omega) large]
          omega
        · have wrapped : cInt (state.size + bytes + 2) = state.size + bytes + 2 - 2 ^ 32 := by
            unfold cInt
            rw [BitVec.toInt_ofInt, Int.bmod_def]
            omega
          omega
      rw [if_neg (by omega), added, ending, room]
      simp only []
      cases both : stored.memory && decide (state.size + bytes + 2 < 2 ^ 31) with
      | false => exact .inl ⟨rfl, rfl, rfl⟩
      | true =>
          simp only [Bool.and_eq_true, decide_eq_true_eq] at both
          exact .inr ⟨bytes, rfl, rfl, cInt_of_bounds (by omega) (by omega)⟩

theorem lineOf_text {text : Bytes} (terminated : 0 ∉ text) :
    lineOf junk (puts untouched 0 (text ++ [0])) text.length = text ++ [newline] := by
  have count : ((text.length : Int) + 1).toNat = (text ++ [(0 : UInt8)]).length := by
    rw [List.length_append, List.length_singleton]
    omega
  have read : (text ++ [(0 : UInt8)]).takeWhile (· ≠ 0) = text := by
    rw [List.takeWhile_append_of_pos]
    · simp
    · intro c member
      have other : c ≠ 0 := fun zero => terminated (zero ▸ member)
      simpa using other
  unfold lineOf
  rw [count, shows_puts.contents, read, List.take_of_length_le (by simp)]

/-- The state after the records with a text. -/
def dbtShown (text : Bytes) : DumpState Writes :=
  ⟨if text = [] then none else some (puts untouched 0 (text ++ [0])), text.length⟩

/-- A record that fits adds its line. -/
theorem dbtDumpRecord_fits {front line : Bytes} (texts : CTexts libc)
    (fits : FitsLine libc stored.record) (rendered : recordLine libc stored = some line)
    (memory : stored.memory = true) (short : (front.length : Int) + line.length + 1 < 2 ^ 31) :
    dbtDumpRecord libc junk (dbtShown front) stored = (0, dbtShown (front ++ line)) := by
  obtain ⟨separated, text, whole, room⟩ := fits
  obtain ⟨text', whole', rfl⟩ := Option.map_eq_some_iff.mp rendered
  obtain rfl : text = text' := Option.some.inj (whole.symm.trans whole')
  have dumped := varDumpData_fits libc stored.record text separated whole untouched 0 dumpBufLen
    (by decide) room
  have length : (text ++ [newline]).length = text.length + 1 := by simp
  have positive : ¬ (text.length : Int) = -1 := by omega
  have granted : realloc stored.memory (cInt ((front.length : Int) + text.length + 2)) = true := by
    unfold realloc
    rw [cInt_of_bounds (by omega) (by omega), memory]
    simp
    omega
  have size : cInt ((front.length : Int) + ((text.length : Int) + 1)) =
      ((front ++ (text ++ [newline])).length : Int) := by
    rw [cInt_of_bounds (by omega) (by omega), List.length_append]
    push_cast
    omega
  have buffer : puts ((if front = [] then none else some (puts untouched 0 (front ++ [0]))).getD untouched)
      front.length (text ++ [newline] ++ [0]) =
        puts untouched 0 (front ++ (text ++ [newline]) ++ [0]) := by
    by_cases empty : front = []
    · subst empty
      rfl
    · rw [if_neg empty, Option.getD_some]
      have covers : puts (puts untouched 0 (front ++ [0])) (0 + front.length) (text ++ [newline] ++ [0]) =
          puts untouched 0 (front ++ (text ++ [newline] ++ [0])) := puts_over (by simp)
      rwa [Int.zero_add, ← List.append_assoc front] at covers
  have some' : front ++ (text ++ [newline]) ≠ [] := by simp
  unfold dbtDumpRecord dbtShown
  rw [dumped, if_neg some']
  simp only [positive, if_false, granted, Bool.not_true, Bool.false_eq_true, size,
    lineOf_text (render_ne_nul libc texts _ _ whole), buffer]

end Record

/-! ## What a walk adds -/

section Total
variable {libc : Libc} {junk : Nat → UInt8} {stops : Bool} {last : Int}

/-- A count that `dbt_dump` does not take for an error. -/
def Countable (state : DumpState Writes) : Prop := 0 ≤ state.size ∧ state.size + 1 < 2 ^ 31

theorem dbtDumpRecord_countable (junk : Nat → UInt8) {state : DumpState Writes} {stored : Stored}
    (countable : Countable state)
    (inside : Within (varDumpData libc stored.record untouched 0 dumpBufLen).2 dumpBufLen) :
    Countable (dbtDumpRecord libc junk state stored).2 := by
  rcases dbtDumpRecord_cases junk countable.1 countable.2 inside with
    ⟨-, -, same⟩ | ⟨bytes, adds, -, more⟩
  · unfold Countable
    rw [same]
    exact countable
  · obtain ⟨natural, -⟩ := countable
    obtain ⟨-, -, room⟩ := added_eq_some.mp adds
    unfold Countable
    rw [more]
    omega

/-- A walk counts no more than all lines, and as much only if every record fits. -/
theorem ddWalk_le : ∀ (entries : List (Option Stored)) (lines : List Bytes) (state : DumpState Writes),
    entries.map (·.bind (recordLine libc)) = lines.map some → Countable state →
    (∀ stored ∈ (ddWalk stops last (dbtDumpRecord libc junk) entries state).visited,
      Within (varDumpData libc stored.record untouched 0 dumpBufLen).2 dumpBufLen) →
    (ddWalk stops last (dbtDumpRecord libc junk) entries state).state.size ≤
        state.size + lines.flatten.length ∧
      ((ddWalk stops last (dbtDumpRecord libc junk) entries state).state.size =
          state.size + lines.flatten.length →
        ∃ records : List Stored, entries = records.map some ∧
          (∀ stored ∈ records, stored.memory = true ∧ FitsLine libc stored.record) ∧
          state.size + lines.flatten.length + 1 < 2 ^ 31)
  | [], lines, state, each, countable, inside => by
      obtain rfl : lines = [] := by simpa using each.symm
      have same : (ddWalk stops last (dbtDumpRecord libc junk) [] state).state.size = state.size := rfl
      rw [same, List.flatten_nil, List.length_nil]
      have room := countable.2
      exact ⟨by omega, fun _ => ⟨[], rfl, by simp, by omega⟩⟩
  | none :: _, [], state, each, _, _ => by cases each
  | some _ :: _, [], state, each, _, _ => by cases each
  | none :: _, _ :: _, state, each, _, _ => by cases (List.cons.inj each).1
  | some stored :: rest, line :: lines, state, each, countable, inside => by
      obtain ⟨first, others⟩ := List.cons.inj each
      obtain ⟨text, rendered, rfl⟩ := Option.map_eq_some_iff.mp first
      have length : (((text ++ [newline]) :: lines).flatten.length : Int) =
          text.length + 1 + lines.flatten.length := by
        rw [List.flatten_cons, List.length_append, List.length_append, List.length_singleton]
        push_cast
        rfl
      rw [length]
      rw [ddWalk_some_visited] at inside
      rw [ddWalk_some_state]
      have here := inside stored (by simp)
      have countable' := dbtDumpRecord_countable junk countable here
      rcases dbtDumpRecord_cases junk countable.1 countable.2 here with
        ⟨-, -, same⟩ | ⟨bytes, adds, succeeded, more⟩
      · -- a line is missing, whether the walk goes on or not
        split
        · exact ⟨by omega, fun all => by omega⟩
        next goes =>
          rw [if_neg goes] at inside
          obtain ⟨most, -⟩ := ddWalk_le rest lines _ others countable' fun other visited =>
            inside other (List.mem_cons_of_mem stored visited)
          exact ⟨by omega, fun all => by omega⟩
      · have goes : ¬ ((dbtDumpRecord libc junk state stored).1 ≠ 0 && stops) = true := by
          rw [succeeded]
          simp
        rw [if_neg goes] at inside ⊢
        obtain ⟨most, all⟩ := ddWalk_le rest lines _ others countable' fun other visited =>
          inside other (List.mem_cons_of_mem stored visited)
        obtain ⟨ending, memory, room⟩ := added_eq_some.mp adds
        obtain ⟨least, whole⟩ := fate_le libc stored.record text rendered dumpBufLen bytes ending
        rw [more] at most all
        refine ⟨by omega, fun equal => ?_⟩
        obtain ⟨records, rfl, fit, small⟩ := all (by omega)
        have complete : bytes = text.length := by omega
        have short := fate_lt (by decide) ending
        refine ⟨stored :: records, rfl, ?_, by omega⟩
        intro other member
        rcases List.mem_cons.mp member with rfl | member
        · exact ⟨memory, whole complete, text, rendered, complete ▸ short⟩
        · exact fit other member

theorem failsInside_iff (junk : Nat → UInt8) : ∀ (entries : List (Option Stored))
    (state : DumpState Writes), Countable state →
    (FailsInside libc stops last state.size entries ↔
      (∀ stored ∈ (ddWalk stops last (dbtDumpRecord libc junk) entries state).visited,
        Within (varDumpData libc stored.record untouched 0 dumpBufLen).2 dumpBufLen) ∧
      (ddWalk stops last (dbtDumpRecord libc junk) entries state).status < 0)
  | [], state, _ => by simp [FailsInside, ddWalk]
  | none :: _, state, _ => by simp [FailsInside, ddWalk]
  | some stored :: rest, state, countable => by
      rw [FailsInside, ddWalk_some_visited, ddWalk_some_status, List.forall_mem_cons, ← within_iff, and_assoc]
      refine and_congr_right fun here => ?_
      have later := failsInside_iff junk rest _ (dbtDumpRecord_countable junk countable here)
      rcases dbtDumpRecord_cases junk countable.1 countable.2 here with
        ⟨adds, failed, same⟩ | ⟨bytes, adds, succeeded, more⟩
      · rw [same] at later
        simp only [adds, failed]
        cases stops with
        | true => simp
        | false => simpa using later
      · rw [more] at later
        simpa only [adds, succeeded, ne_eq, not_true_eq_false, decide_false, Bool.false_and,
          Bool.false_eq_true, if_false] using later

end Total

/-! ## Complete or failed -/

section Sound
variable {libc : Libc} {junk : Nat → UInt8}

theorem ddWalk_fit {stops : Bool} {last : Int} (texts : CTexts libc) {records : List Stored}
    {lines : List Bytes} (each : records.map (recordLine libc) = lines.map some)
    (fit : ∀ stored ∈ records, stored.memory = true ∧ FitsLine libc stored.record)
    (small : (lines.flatten.length : Int) + 1 < 2 ^ 31) :
    ddWalk stops last (dbtDumpRecord libc junk) (records.map some) ⟨none, 0⟩ =
      ⟨last, records, dbtShown lines.flatten⟩ := by
  have walked : ddWalk stops last (dbtDumpRecord libc junk) (records.map some) (dbtShown []) =
      ⟨last, records, dbtShown ([] ++ lines.flatten)⟩ := by
    refine ddWalk_lines records lines [] each ?_
    intro stored member line text rendered short
    rw [List.length_nil] at short
    exact dbtDumpRecord_fits texts (fit stored member).2 rendered (fit stored member).1 (by omega)
  exact walked

theorem lines_nil {records : List Stored} {lines : List Bytes}
    (each : records.map (recordLine libc) = lines.map some) (empty : lines.flatten = []) : lines = [] := by
  cases lines with
  | nil => rfl
  | cons line lines =>
      obtain ⟨stored, -, -, rendered, -⟩ := List.map_eq_cons_iff.mp each
      obtain ⟨text, -, rfl⟩ := Option.map_eq_some_iff.mp rendered
      simp at empty

/-- The whole buffer is there behind the last record. -/
theorem completeDump_shown {records visited : List Stored} {lines : List Bytes}
    (each : records.map (recordLine libc) = lines.map some) :
    CompleteDump (records.map some) (recordLine libc) HoldsLines
      ⟨(dbtShown lines.flatten).size, (dbtShown lines.flatten).buffer, visited⟩ := by
  refine ⟨lines, (lines_of_records _ records).trans each, rfl, ?_⟩
  by_cases empty : lines.flatten = []
  · rw [empty]
    exact lines_nil each empty
  · unfold dbtShown
    simp only [if_neg empty]
    refine ⟨holdsText_puts, within_text within_untouched (Int.le_refl 0) (Int.zero_add _) (by omega)⟩

theorem ddWalk_inside {stops : Bool} {last : Int} (texts : CTexts libc)
    {entries : List (Option Stored)} (fit : AllFit libc entries) :
    ∀ stored ∈ (ddWalk stops last (dbtDumpRecord libc junk) entries ⟨none, 0⟩).visited,
      Within (varDumpData libc stored.record untouched 0 dumpBufLen).2 dumpBufLen := by
  obtain ⟨records, lines, rfl, each, fit, small⟩ := fit
  rw [ddWalk_fit texts each fit small]
  intro stored member
  obtain ⟨-, separated, text, rendered, room⟩ := fit stored member
  rw [varDumpData_fits libc stored.record text separated rendered untouched 0 dumpBufLen (by decide) room]
  exact within_text within_untouched (Int.le_refl 0) (Int.zero_add _) room

/-- A failed record leaves a count that is too small for all lines, and large enough to be
returned. -/
theorem ddWalk_complete_iff {stops : Bool} {last : Int} (texts : CTexts libc)
    {entries : List (Option Stored)} {walked : Walked (DumpState Writes) Stored}
    (walk : ddWalk stops last (dbtDumpRecord libc junk) entries ⟨none, 0⟩ = walked)
    (inside : ∀ stored ∈ walked.visited,
      Within (varDumpData libc stored.record untouched 0 dumpBufLen).2 dumpBufLen) :
    walked.state.size ≠ -1 ∧
      (CompleteDump entries (recordLine libc) HoldsLines
          ⟨walked.state.size, walked.state.buffer, walked.visited⟩ ↔
        AllFit libc entries) := by
  have start : Countable ⟨none, 0⟩ := ⟨by simp, by simp⟩
  subst walk
  have keeps (state : DumpState Writes) (stored : Stored) (holds : Countable state)
      (allowed : Within (varDumpData libc stored.record untouched 0 dumpBufLen).2 dumpBufLen) :
      Countable (dbtDumpRecord libc junk state stored).2 :=
    dbtDumpRecord_countable junk holds allowed
  have natural := (ddWalk_keeps keeps entries _ start inside).1
  refine ⟨by omega, ?_, ?_⟩
  · rintro ⟨lines, each, length, -⟩
    obtain ⟨-, all⟩ := ddWalk_le entries lines _ each start inside
    simp only [Int.zero_add] at length all
    obtain ⟨records, rfl, fit, small⟩ := all length
    exact ⟨records, lines, rfl, (lines_of_records _ records).symm.trans each, fit, small⟩
  · rintro ⟨records, lines, rfl, each, fit, small⟩
    rw [ddWalk_fit texts each fit small]
    exact completeDump_shown each

theorem dbtDump_early {known mutex : Bool} {dump : Option Writes} (table : WalkedTable Stored)
    (early : known = false ∨ mutex = false ∨ dump ≠ none) :
    DbtDumpSound libc junk known mutex dump table := by
  have ended : dbtDump libc junk known mutex dump table = .ok ⟨-1, dump, []⟩ := by
    unfold dbtDump
    cases known with
    | false => rfl
    | true => exact dumpTable_early (by simpa using early)
  constructor
  · rw [ended]
    exact .inl ⟨rfl, rfl⟩
  · rw [ended]
    exact fun stored member => by cases member

section Walks
variable {table : WalkedTable Stored}

theorem dbtDump_unlocked_iff (unlocked : table.locks = false) :
    DbtDumpSound libc junk true true none table ↔ table.entries = [] := by
  have ended : dbtDump libc junk true true none table = .ok ⟨0, none, []⟩ := dumpTable_unlocked unlocked
  constructor
  · intro sound
    have complete := sound.complete
    rw [ended] at complete
    rcases complete with ⟨minus, -⟩ | complete
    · cases minus
    · exact completeDump_none.mp complete
  · intro empty
    constructor
    · rw [ended]
      exact .inr (completeDump_none.mpr empty)
    · rw [ended]
      exact fun stored member => by cases member

theorem dbtDump_fatal_iff (locks : table.locks = true) (fatal : table.cfDbtFatalErrors = true)
    (fails : (ddWalk table.stops table.last (dbtDumpRecord libc junk) table.entries ⟨none, 0⟩).status < 0) :
    DbtDumpSound libc junk true true none table ↔
      FailsInside libc table.stops table.last 0 table.entries := by
  have ended : dbtDump libc junk true true none table = .error _ := dumpTable_fatal locks fatal fails
  have start : Countable ⟨none, 0⟩ := ⟨by simp, by simp⟩
  have inside : FailsInside libc table.stops table.last 0 table.entries ↔ _ :=
    failsInside_iff junk table.entries _ start
  rw [inside]
  constructor
  · intro sound
    have visited := sound.inside
    rw [ended] at visited
    exact ⟨visited, fails⟩
  · rintro ⟨visited, -⟩
    constructor
    · rw [ended]
      trivial
    · rw [ended]
      exact visited

theorem dbtDump_walked_iff (texts : CTexts libc) (locks : table.locks = true)
    (goes : ¬ (table.cfDbtFatalErrors = true ∧
      (ddWalk table.stops table.last (dbtDumpRecord libc junk) table.entries ⟨none, 0⟩).status < 0)) :
    DbtDumpSound libc junk true true none table ↔ AllFit libc table.entries := by
  cases walk : ddWalk table.stops table.last (dbtDumpRecord libc junk) table.entries ⟨none, 0⟩ with
  | mk status visited state =>
      have ended : dbtDump libc junk true true none table =
          .ok (if state.size = -1 then ⟨-1, none, visited⟩ else ⟨state.size, state.buffer, visited⟩) :=
        dumpTable_walked locks goes walk
      constructor
      · intro sound
        have inside := sound.inside
        have complete := sound.complete
        rw [ended] at inside complete
        have visited' : ∀ stored ∈ visited,
            Within (varDumpData libc stored.record untouched 0 dumpBufLen).2 dumpBufLen := by
          split at inside
          · exact inside
          · exact inside
        obtain ⟨natural, whole⟩ := ddWalk_complete_iff texts walk visited'
        rw [if_neg natural] at complete
        exact whole.mp (complete.resolve_left fun minus => natural minus.1)
      · intro fit
        have visited' := @ddWalk_inside libc junk table.stops table.last texts table.entries fit
        rw [walk] at visited'
        obtain ⟨natural, whole⟩ := ddWalk_complete_iff texts walk visited'
        rw [if_neg natural] at ended
        constructor
        · rw [ended]
          exact .inr (whole.mpr fit)
        · rw [ended]
          exact visited'

end Walks

/-- `dbt_dump` is complete or fails exactly for the tables that it gets right. -/
theorem dbtDump_sound_iff (texts : CTexts libc) (known mutex : Bool) (dump : Option Writes)
    (table : WalkedTable Stored) :
    DbtDumpSound libc junk known mutex dump table ↔ DbtDumpable libc known mutex dump table := by
  by_cases early : known = false ∨ mutex = false ∨ dump ≠ none
  · exact iff_of_true (dbtDump_early table early) (by unfold DbtDumpable; tauto)
  · obtain ⟨rfl, rfl, rfl⟩ : known = true ∧ mutex = true ∧ dump = none := by simpa using early
    have dumpable : DbtDumpable libc true true none table ↔
        ((table.locks = true ∨ table.entries = []) ∧ AllFit libc table.entries) ∨
        (table.locks = true ∧ table.cfDbtFatalErrors = true ∧
          FailsInside libc table.stops table.last 0 table.entries) := by
      simp [DbtDumpable]
    have start : Countable ⟨none, 0⟩ := ⟨by simp, by simp⟩
    rw [dumpable]
    cases locks : table.locks with
    | false =>
        rw [dbtDump_unlocked_iff locks]
        have allFit (empty : table.entries = []) : AllFit libc table.entries :=
          ⟨[], [], empty, rfl, by simp, by simp⟩
        simpa using allFit
    | true =>
        by_cases fatal : table.cfDbtFatalErrors = true ∧
            (ddWalk table.stops table.last (dbtDumpRecord libc junk) table.entries ⟨none, 0⟩).status < 0
        · rw [dbtDump_fatal_iff locks fatal.1 fatal.2]
          have inside (fit : AllFit libc table.entries) :
              FailsInside libc table.stops table.last 0 table.entries :=
            (failsInside_iff junk table.entries _ start).mpr ⟨ddWalk_inside texts fit, fatal.2⟩
          simpa [fatal.1] using inside
        · rw [dbtDump_walked_iff texts locks fatal]
          have goes (fatal' : table.cfDbtFatalErrors = true) :
              ¬ FailsInside libc table.stops table.last 0 table.entries := fun fails =>
            fatal ⟨fatal', ((failsInside_iff junk table.entries _ start).mp fails).2⟩
          simpa using fun fatal' fails => (goes fatal' fails).elim

/-- Two brackets and a string that leave no room for a NUL. -/
theorem longString_refused {name : Option CString} {text : CString} (long : 8191 ≤ text.text.length)
    (small : text.text.length < 2 ^ 31) :
    fate libc (.collection false [(name, .datum (.string text))]) dumpBufLen = .refused := by
  have length : cInt text.text.length = text.text.length := cInt_of_bounds (by omega) (by omega)
  have refused : datumFate libc (.string text) (8192 - (elementPlace 8192 1 : Nat)) = .refused := by
    have place : elementPlace 8192 1 = 1 := rfl
    have full : (8192 : Int) - (1 : Nat) ≤ measured (.string text) text.text := by
      rw [measured, length]
      omega
    rw [place]
    exact if_pos full
  have element : elementFate false name (fate libc (.datum (.string text)))
      (dumpBufLen - (elementPlace dumpBufLen 1 : Nat)) = .refused := refused
  rw [fate, elementsFate, element, if_neg (by decide)]

/-- A record that is refused leaves no trace in a dump. -/
theorem dbtDump_refused {stored : Stored}
    (refused : fate libc stored.record dumpBufLen = .refused) :
    dbtDump libc junk true true none ⟨[some stored], false, 0, true, false⟩ = .ok ⟨0, none, [stored]⟩ := by
  have follows := dump_follows libc stored.record
  rw [refused] at follows
  have called : dbtDumpRecord libc junk ⟨none, 0⟩ stored = (-1, ⟨none, 0⟩) := if_pos follows.1
  have walk : ddWalk false 0 (dbtDumpRecord libc junk) [some stored] ⟨none, 0⟩ =
      ⟨0, [stored], ⟨none, 0⟩⟩ := by
    rw [ddWalk_some, called]
    rfl
  exact @dumpTable_walked _ _ ⟨[some stored], false, 0, true, false⟩ _ rfl
    (fun both => by cases both.1) _ walk

theorem refused_record_is_left_out {stored : Stored}
    (refused : fate libc stored.record dumpBufLen = .refused) :
    ¬ DbtDumpSound libc junk true true none ⟨[some stored], false, 0, true, false⟩ := by
  intro sound
  have complete := sound.complete
  rw [dbtDump_refused refused] at complete
  rcases complete with ⟨minus, -⟩ | complete
  · cases minus
  · cases completeDump_none.mp complete

/-- A record of one field with 8192 bytes. -/
def longStored : Stored where
  record := .collection false [(none, .datum (.string ⟨List.replicate 8192 97,
    fun member => absurd (List.eq_of_mem_replicate member) (by decide)⟩))]
  memory := true

/-- The table has a record, and its dump is empty. -/
theorem long_record_is_left_out :
    dbtDump plainLibc (fun _ => 0) true true none ⟨[some longStored], false, 0, true, false⟩ =
        .ok ⟨0, none, [longStored]⟩ ∧
      ¬ DbtDumpSound plainLibc (fun _ => 0) true true none ⟨[some longStored], false, 0, true, false⟩ := by
  have refused : fate plainLibc longStored.record dumpBufLen = .refused :=
    longString_refused (by rw [List.length_replicate]; omega) (by rw [List.length_replicate]; omega)
  exact ⟨dbtDump_refused refused, refused_record_is_left_out refused⟩

end Sound

end Mopher.Dump
