import Mopher.Dbt.Dump
import Mopher.Greylist.Recipient

/-!
# Dump of the greylist

`greylist_dump` over the same walk as `dbt_dump`.  Its callback leaves a failure where the
count of bytes is, so a record that does not fit fails the whole dump; only a record that
does not unpack ends the walk unnoticed.
-/

set_option autoImplicit false

namespace Mopher.Greylist

open CBuffer Dump

/-- A record of the table, and what `time` and `realloc` answer when it is dumped.  The
greylist stores no null values. -/
structure Row where
  origin : CString
  envfrom : CString
  envrcpt : CString
  record : Record
  now : Int
  memory : Bool

/-- `DUMP_RECORD_BUFLEN` -/
def dumpRecordBuflen : Int := 1024

/-- The line of a record. -/
def dumpLine (row : Row) : Bytes :=
  let expireTime := toInt (row.record.expire - row.now)
  let tuple := row.origin.text ++ cstr ": " ++ row.envfrom.text ++ cstr " > " ++ row.envrcpt.text
  if 0 < row.record.passed then
    tuple ++ cstr ": status=visa, messages=" ++ intText row.record.passed ++
      cstr ", expires=" ++ intText expireTime ++ [newline]
  else
    let delayTime := toInt (row.now - row.record.created)
    tuple ++ cstr ": status=defer, delay=" ++ intText delayTime ++ cstr "/" ++
      intText row.record.delay ++ cstr ", attempts=" ++ intText row.record.connections ++ cstr "/" ++
      intText row.record.attempts ++ cstr ", expires=" ++ intText expireTime ++ [newline]

def greylistDumpRecord (state : DumpState Bytes) (row : Row) : Int × DumpState Bytes :=
  if state.size = -1 then (-1, state)
  else
    let line := dumpLine row
    if dumpRecordBuflen ≤ line.length then (-1, { state with size := -1 })
    else
      let size := toInt (state.size + line.length)
      if !realloc row.memory (toInt (size + 1)) then (-1, { state with size := -1 })
      else
        -- `strcpy` for the first record and `strcat` for the others
        (0, ⟨some (if size = line.length then line else state.buffer.getD [] ++ line), size⟩)

def greylistDump (mutex : Bool) (dump : Option Bytes) (table : WalkedTable Row) :
    Except (List Row) (Dumped Bytes Row) :=
  dumpTable mutex dump table greylistDumpRecord

/-- `greylist_dump` is complete or fails. -/
def GreylistDumpSound (mutex : Bool) (dump : Option Bytes) (table : WalkedTable Row) : Prop :=
  CompleteOrFails dump table.entries (fun row => some (dumpLine row)) Eq (greylistDump mutex dump table)

/-- The record fits behind so many bytes. -/
def Accepted (size : Int) (row : Row) : Prop :=
  ((dumpLine row).length : Int) < dumpRecordBuflen ∧ row.memory = true ∧
    size + (dumpLine row).length + 1 < 2 ^ 31

/-- Every record unpacks, up to the first that does not fit. -/
def NoneSkipped : Int → List (Option Row) → Prop
  | _, [] => True
  | _, none :: _ => False
  | size, some row :: rest => Accepted size row → NoneSkipped (size + (dumpLine row).length) rest

/-- The tables that `greylist_dump` gets right: it fails before the walk, or the walk comes
to every record in front of a failure, or to none because there is none. -/
def GreylistDumpable (mutex : Bool) (dump : Option Bytes) (table : WalkedTable Row) : Prop :=
  mutex = false ∨ dump ≠ none ∨ table.entries = [] ∨
    (table.locks = true ∧ (table.cfDbtFatalErrors = true ∨ NoneSkipped 0 table.entries))

/-! ## What a record adds -/

section Record
variable {front : Bytes} {row : Row}

/-- The state after the records with a text. -/
def greylistShown (text : Bytes) : DumpState Bytes :=
  ⟨if text = [] then none else some text, text.length⟩

theorem dumpLine_ne_nil (row : Row) : dumpLine row ≠ [] := by
  unfold dumpLine
  simp only []
  split
  · simp
  · simp

theorem greylistShown_line (row : Row) (front : Bytes) :
    greylistShown (front ++ dumpLine row) =
      ⟨some (front ++ dumpLine row), front.length + (dumpLine row).length⟩ := by
  have some' : front ++ dumpLine row ≠ [] := by simp [dumpLine_ne_nil row]
  unfold greylistShown
  rw [if_neg some', List.length_append]
  push_cast
  rfl

theorem greylistDumpRecord_accepted (accepted : Accepted front.length row) :
    greylistDumpRecord (greylistShown front) row = (0, greylistShown (front ++ dumpLine row)) := by
  obtain ⟨short, memory, small⟩ := accepted
  have count : toInt ((front.length : Int) + (dumpLine row).length) =
      front.length + (dumpLine row).length := toInt_of_bounds _ (by omega) (by omega)
  have granted : realloc row.memory (toInt ((front.length : Int) + (dumpLine row).length + 1)) = true := by
    unfold realloc
    rw [toInt_of_bounds _ (by omega) (by omega), memory]
    simp
    omega
  have buffer : (if (front.length : Int) + (dumpLine row).length = (dumpLine row).length then dumpLine row
      else (if front = [] then none else some front).getD [] ++ dumpLine row) = front ++ dumpLine row := by
    by_cases empty : front = []
    · subst empty
      simp
    · have positive := List.length_pos_iff.mpr empty
      rw [if_neg (by omega), if_neg empty]
      rfl
  have natural : ¬ (front.length : Int) = -1 := by omega
  have fits : ¬ dumpRecordBuflen ≤ ((dumpLine row).length : Int) := by omega
  rw [greylistShown_line]
  unfold greylistDumpRecord greylistShown
  simp only [natural, fits, if_false, count, granted, Bool.not_true, Bool.false_eq_true, buffer]

theorem greylistDumpRecord_refused (refused : ¬ Accepted front.length row)
    (small : (front.length : Int) + 1 < 2 ^ 31) :
    (greylistDumpRecord (greylistShown front) row).2.size = -1 := by
  have natural : ¬ (front.length : Int) = -1 := by omega
  unfold greylistDumpRecord greylistShown
  simp only [natural, if_false]
  split
  · rfl
  next short =>
    have denied : realloc row.memory (toInt (toInt ((front.length : Int) + (dumpLine row).length) + 1)) =
        false := by
      unfold realloc
      rw [Bool.and_eq_false_iff, decide_eq_false_iff_not]
      by_contra granted
      simp only [not_or, Bool.not_eq_false, Decidable.not_not] at granted
      refine refused ⟨by omega, granted.1, ?_⟩
      have least := granted.2
      unfold dumpRecordBuflen at short
      unfold toInt at least
      rw [Int.bmod_def, Int.bmod_def] at least
      split at least
      · split at least <;> omega
      · split at least <;> omega
    simp only [denied, Bool.not_false, if_true]

theorem greylistDumpRecord_failed {state : DumpState Bytes} (failed : state.size = -1) :
    (greylistDumpRecord state row).2.size = -1 := by
  unfold greylistDumpRecord
  rw [if_pos failed]
  exact failed

end Record

/-! ## What a walk adds -/

section Walk
variable {stops : Bool} {last : Int}

theorem ddWalk_failed (entries : List (Option Row)) {state : DumpState Bytes} (failed : state.size = -1) :
    (ddWalk stops last greylistDumpRecord entries state).state.size = -1 := by
  have keeps (state : DumpState Bytes) (row : Row) (failed : state.size = -1) (_ : True) :
      (greylistDumpRecord state row).2.size = -1 := greylistDumpRecord_failed failed
  exact ddWalk_keeps keeps entries state failed fun _ _ => trivial

/-- A walk remembers a record that does not fit, or shows all records, or does not come to
one that it cannot unpack. -/
theorem ddWalk_cases (entries : List (Option Row)) (front : Bytes)
    (small : (front.length : Int) + 1 < 2 ^ 31) {walked : Walked (DumpState Bytes) Row}
    (walk : ddWalk stops last greylistDumpRecord entries (greylistShown front) = walked) :
    (NoneSkipped front.length entries ∧ walked.state.size = -1) ∨
    (∃ rows : List Row, NoneSkipped front.length entries ∧ entries = rows.map some ∧
      walked.state = greylistShown (front ++ (rows.map dumpLine).flatten)) ∨
    (¬ NoneSkipped front.length entries ∧ none ∈ entries ∧ walked.status = -1 ∧
      walked.state.size ≠ -1) := by
  induction entries generalizing front walked with
  | nil =>
      subst walk
      exact .inr (.inl ⟨[], trivial, rfl, by simp [ddWalk]⟩)
  | cons entry rest ih =>
    cases entry with
    | none =>
      subst walk
      have natural : (greylistShown front).size = front.length := rfl
      refine .inr (.inr ⟨id, by simp, rfl, ?_⟩)
      simp only [ddWalk, natural]
      omega
    | some row =>
      by_cases accepted : Accepted front.length row
      · have called := greylistDumpRecord_accepted accepted
        have room := accepted.2.2
        have length : ((front ++ dumpLine row).length : Int) = front.length + (dumpLine row).length := by
          rw [List.length_append]
          push_cast
          rfl
        have goes : ¬ (((greylistDumpRecord (greylistShown front) row).1 ≠ 0 && stops) = true) := by
          rw [called]
          simp
        have state := @ddWalk_some_state _ _ stops last greylistDumpRecord row rest (greylistShown front)
        have status := @ddWalk_some_status _ _ stops last greylistDumpRecord row rest (greylistShown front)
        rw [if_neg goes, called, walk] at state status
        have skipped : NoneSkipped front.length (some row :: rest) ↔
            NoneSkipped (front.length + (dumpLine row).length) rest :=
          ⟨fun each => each accepted, fun each _ => each⟩
        rw [state, status, skipped, ← length]
        rcases ih (front ++ dumpLine row) (by omega) rfl with
          failed | ⟨rows, each, rfl, shown⟩ | ⟨behind, member, stopped, natural⟩
        · exact .inl failed
        · refine .inr (.inl ⟨row :: rows, each, rfl, shown.trans ?_⟩)
          simp
        · exact .inr (.inr ⟨behind, List.mem_cons_of_mem _ member, stopped, natural⟩)
      · have failed := greylistDumpRecord_refused accepted small
        refine .inl ⟨fun fits => (accepted fits).elim, ?_⟩
        rw [← walk, ddWalk_some_state]
        split
        · exact failed
        · exact ddWalk_failed rest failed

end Walk

/-! ## Complete or failed -/

theorem completeDump_rows {rows visited : List Row} :
    CompleteDump (rows.map some) (fun row => some (dumpLine row)) Eq
      ⟨(greylistShown (rows.map dumpLine).flatten).size, (greylistShown (rows.map dumpLine).flatten).buffer,
        visited⟩ := by
  refine ⟨rows.map dumpLine, ?_, rfl, ?_⟩
  · rw [lines_of_records, List.map_map]
    rfl
  · unfold greylistShown
    by_cases empty : (rows.map dumpLine).flatten = []
    · simp only [if_pos empty]
      cases rows with
      | nil => rfl
      | cons row rows => simp [dumpLine_ne_nil row] at empty
    · simp only [if_neg empty]

section Walks
variable {table : WalkedTable Row}

theorem greylistDump_unlocked_iff (unlocked : table.locks = false) :
    GreylistDumpSound true none table ↔ table.entries = [] := by
  unfold GreylistDumpSound greylistDump
  rw [dumpTable_unlocked unlocked]
  constructor
  · rintro (⟨minus, -⟩ | complete)
    · cases minus
    · exact completeDump_none.mp complete
  · intro empty
    exact .inr (completeDump_none.mpr empty)

/-- A record that does not unpack has no line. -/
theorem not_completeDump {entries : List (Option Row)} {dumped : Dumped Bytes Row} (member : none ∈ entries) :
    ¬ CompleteDump entries (fun row => some (dumpLine row)) Eq dumped := by
  rintro ⟨lines, each, -⟩
  have absent := List.mem_map_of_mem (f := (·.bind fun row => some (dumpLine row))) member
  rw [each] at absent
  simp at absent

theorem greylistDump_locked_iff (locks : table.locks = true) :
    GreylistDumpSound true none table ↔
      table.cfDbtFatalErrors = true ∨ NoneSkipped 0 table.entries := by
  have start : ddWalk table.stops table.last greylistDumpRecord table.entries (greylistShown []) =
      ddWalk table.stops table.last greylistDumpRecord table.entries ⟨none, 0⟩ := rfl
  have walks := ddWalk_cases table.entries [] (by simp) start
  simp only [List.length_nil, List.nil_append] at walks
  unfold GreylistDumpSound greylistDump
  by_cases fatal : table.cfDbtFatalErrors = true ∧
      (ddWalk table.stops table.last greylistDumpRecord table.entries ⟨none, 0⟩).status < 0
  · rw [dumpTable_fatal locks fatal.1 fatal.2]
    exact iff_of_true trivial (.inl fatal.1)
  · rw [dumpTable_walked locks fatal rfl]
    rcases walks with ⟨each, failed⟩ | ⟨rows, each, whole, shown⟩ | ⟨behind, member, stopped, natural⟩
    · rw [if_pos failed]
      exact iff_of_true (.inl ⟨rfl, rfl⟩) (.inr each)
    · have natural : (greylistShown (rows.map dumpLine).flatten).size ≠ -1 := by
        unfold greylistShown
        simp only []
        omega
      rw [shown, if_neg natural, whole]
      exact iff_of_true (.inr completeDump_rows) (.inr (whole ▸ each))
    · rw [if_neg natural]
      refine iff_of_false ?_ ?_
      · rintro (⟨minus, -⟩ | complete)
        · exact natural minus
        · exact not_completeDump member complete
      · rintro (fatal' | each)
        · exact fatal ⟨fatal', by omega⟩
        · exact behind each

end Walks

/-- `greylist_dump` is complete or fails exactly for the tables that it gets right. -/
theorem greylistDump_sound_iff (mutex : Bool) (dump : Option Bytes) (table : WalkedTable Row) :
    GreylistDumpSound mutex dump table ↔ GreylistDumpable mutex dump table := by
  unfold GreylistDumpable
  by_cases early : mutex = false ∨ dump ≠ none
  · refine iff_of_true ?_ (by tauto)
    unfold GreylistDumpSound greylistDump
    rw [dumpTable_early early]
    exact .inl ⟨rfl, rfl⟩
  · obtain ⟨rfl, rfl⟩ : mutex = true ∧ dump = none := by simpa using early
    cases locks : table.locks with
    | false =>
        rw [greylistDump_unlocked_iff locks]
        simp
    | true =>
        rw [greylistDump_locked_iff locks]
        have empty (none' : table.entries = []) : NoneSkipped 0 table.entries := by
          rw [none']
          trivial
        simp only [Bool.true_eq_false, ne_eq, not_true_eq_false, false_or, true_and]
        tauto

/-- Table dumps are complete or fail exactly for the tables that the two functions get
right. -/
theorem table_dumps_sound_iff (libc : Libc) (texts : CTexts libc) (junk : Nat → UInt8)
    (known mutex : Bool) (dump : Option Writes) (table : WalkedTable Stored)
    (greylistMutex : Bool) (greylistBuffer : Option Bytes) (greylist : WalkedTable Row) :
    (DbtDumpSound libc junk known mutex dump table ↔ DbtDumpable libc known mutex dump table) ∧
      (GreylistDumpSound greylistMutex greylistBuffer greylist ↔
        GreylistDumpable greylistMutex greylistBuffer greylist) :=
  ⟨dbtDump_sound_iff texts known mutex dump table,
    greylistDump_sound_iff greylistMutex greylistBuffer greylist⟩

/-- A record of one number. -/
def oneNumber : Data := .collection false [(none, .datum (.int 1))]

/-- A table with a number in it is dumped; a greylist whose record does not unpack is not. -/
theorem one_number_is_dumped :
    DbtDumpSound plainLibc (fun _ => 0) true true none ⟨[some ⟨oneNumber, true⟩], false, 0, true, true⟩ ∧
      ¬ GreylistDumpSound true none ⟨[none], false, 0, true, false⟩ := by
  have texts : CTexts plainLibc := {
    inetNtop := fun _ _ absent => by cases absent
    floatText := fun _ => show 0 ∉ cstr "0.00" by decide
    pointerText := fun _ => show 0 ∉ cstr "(0x1)" by decide }
  have both := table_dumps_sound_iff plainLibc texts (fun _ => 0) true true none
    ⟨[some ⟨oneNumber, true⟩], false, 0, true, true⟩ true none ⟨[none], false, 0, true, false⟩
  have pieces : renderElements plainLibc false [(none, .datum (.int 1))] = some [cstr "1"] := by decide
  have separated : Separated plainLibc oneNumber := by
    refine ⟨⟨trivial, trivial⟩, fun first second rest each => ?_⟩
    rw [pieces] at each
    cases each
  have fits : FitsLine plainLibc oneNumber := ⟨separated, cstr "(1)", by decide, by decide⟩
  have allFit : AllFit plainLibc [some ⟨oneNumber, true⟩] :=
    ⟨[⟨oneNumber, true⟩], [cstr "(1)\n"], rfl, by decide, by simp [fits], by decide⟩
  have skipped : ¬ GreylistDumpable true none ⟨[none], false, 0, true, false⟩ := by
    simp [GreylistDumpable, NoneSkipped]
  exact ⟨both.1.mpr (.inr (.inr (.inr (.inl ⟨.inl rfl, allFit⟩)))), fun sound => skipped (both.2.mp sound)⟩

end Mopher.Greylist
