import Mopher.Sql.Record

/-!
# Statements of SQLite

Model of `lite_exec`, `lite_get_row` and `lite_get_value` of `lite.c` below `sql_db_get`,
`sql_db_walk`, `sql_db_expire` and `sql_db_exec_only` of `sql.c`: what is called for one
prepared statement, and what the rows of a walk are.

`lite_exec` steps a statement once.  If that fails it finalizes the statement and leaves
the pointer to it where the caller looks for a result.  `lite_get_row` does not step for
the first row, and takes whatever is no row for the end.
-/

set_option autoImplicit false

namespace Mopher.Sql

/-- What `sqlite3_step` returns. -/
inductive LiteStep where
  | done
  | row (columns : List Column)
  | error

/-- The answers for one statement: after its steps it is done.  `stale` is what
`sqlite3_column_text` returns for a statement that is at no row. -/
structure LiteQuery where
  prepares : Bool
  steps : List LiteStep
  changes : Nat
  stale : List Column

/-- What is done with a statement. -/
inductive LiteEvent where
  | prepared
  | stepped
  | read
  | finalized
deriving DecidableEq

/-- The status, the result that is left, the tuples, and the rows that were changed. -/
structure LiteExec where
  ok : Bool
  result : Bool
  tuples : Nat
  affected : Nat
  trace : List LiteEvent

section Model

def liteExec (q : LiteQuery) : LiteExec :=
  if !q.prepares then ⟨false, false, 0, 0, []⟩
  else
    match q.steps.headD .done with
    | .done => ⟨true, true, 0, q.changes, [.prepared, .stepped]⟩
    | .row _ => ⟨true, true, 1, q.changes, [.prepared, .stepped]⟩
    | .error => ⟨false, true, 0, 0, [.prepared, .stepped, .finalized]⟩

/-- `sql_free_result`, if there is a result. -/
def freeResult (result : Bool) : List LiteEvent := if result then [.finalized] else []

/-- The status and the trace. -/
def sqlDbExecOnlyLite (q : LiteQuery) : Int × List LiteEvent :=
  let exec := liteExec q
  if !exec.ok then (-1, exec.trace ++ freeResult exec.result)
  else if exec.tuples ≠ 0 then (-1, exec.trace ++ freeResult exec.result)
  else (exec.affected, exec.trace ++ freeResult exec.result)

/-- The columns of the first row, which nobody asks for. -/
def firstRow (q : LiteQuery) : List Column :=
  match q.steps.headD .done with
  | .row columns => columns
  | _ => q.stale

variable (unpack : List Column → Option (List Value))

def sqlDbGetLite (q : LiteQuery) : Int × Option (List Value) × List LiteEvent :=
  let exec := liteExec q
  if !exec.ok then (-1, none, exec.trace ++ freeResult exec.result)
  else if exec.tuples = 0 then (0, none, exec.trace ++ freeResult exec.result)
  else
    match unpack (firstRow q) with
    | none => (-1, none, exec.trace ++ [.read] ++ freeResult exec.result)
    | some record => (0, some record, exec.trace ++ [.read] ++ freeResult exec.result)

def sqlDbExpireLite (q : LiteQuery) : Int × List LiteEvent :=
  let exec := liteExec q
  if !exec.ok then (-1, exec.trace) else (exec.affected, exec.trace ++ [.finalized])

/-- The loop of `sql_db_walk` at a row: the status, the records that the callback was given, and
what was done.  `accepts n` is the answer to the `n`-th. -/
def walkFrom (accepts : Nat → List Value → Bool) :
    List Column → List LiteStep → Nat → Int × List (List Value) × List LiteEvent
  | columns, steps, n =>
      match unpack columns with
      | none => (-1, [], [.read])
      | some record =>
          if !accepts n record then (-1, [record], [.read])
          else
            match steps with
            | .row next :: steps =>
                let behind := walkFrom accepts next steps (n + 1)
                (behind.1, record :: behind.2.1, [.read, .stepped] ++ behind.2.2)
            | _ => (0, [record], [.read, .stepped])

def sqlDbWalkLite (accepts : Nat → List Value → Bool) (q : LiteQuery) :
    Int × List (List Value) × List LiteEvent :=
  let exec := liteExec q
  if !exec.ok then (-1, [], exec.trace ++ freeResult exec.result)
  else
    let walked := walkFrom unpack accepts (firstRow q) q.steps.tail 0
    (walked.1, walked.2.1, exec.trace ++ walked.2.2 ++ freeResult exec.result)

end Model

/-! ## Statements are finalized -/

/-- The callers of `sql_exec`. -/
inductive LiteUse where
  | execOnly
  | get (unpack : List Column → Option (List Value))
  | walk (unpack : List Column → Option (List Value)) (accepts : Nat → List Value → Bool)
  | expire

def LiteUse.trace (q : LiteQuery) : LiteUse → List LiteEvent
  | .execOnly => (sqlDbExecOnlyLite q).2
  | .get unpack => (sqlDbGetLite unpack q).2.2
  | .walk unpack accepts => (sqlDbWalkLite unpack accepts q).2.2
  | .expire => (sqlDbExpireLite q).2

/-- The first step of a statement fails. -/
def LiteQuery.Fails (q : LiteQuery) : Prop := q.prepares = true ∧ ∃ rest, q.steps = .error :: rest

/-- A statement that was prepared is finalized, and after that it is not used. -/
def Released (trace : List LiteEvent) : Prop :=
  ∃ used, trace = used ++ freeResult (trace.contains .prepared) ∧ .finalized ∉ used

section Traces
variable {unpack : List Column → Option (List Value)} {accepts : Nat → List Value → Bool} {q : LiteQuery}

/-- The loop reads and steps, and nothing else. -/
theorem walkFrom_open (columns : List Column) (steps : List LiteStep) (n : Nat) :
    ∀ event ∈ (walkFrom unpack accepts columns steps n).2.2, event = .read ∨ event = .stepped := by
  induction steps generalizing columns n with
  | nil =>
      rw [walkFrom]
      cases unpack columns with
      | none => simp
      | some record =>
          dsimp only
          split <;> simp
  | cons step steps ih =>
      rw [walkFrom]
      cases unpack columns with
      | none => simp
      | some record =>
          dsimp only
          split
          · simp
          · cases step with
            | done => simp
            | error => simp
            | row next =>
                intro event inside
                simp only [List.cons_append, List.nil_append, List.mem_cons] at inside
                rcases inside with rfl | rfl | inside
                · exact .inl rfl
                · exact .inr rfl
                · exact ih next (n + 1) event inside

/-- The ways of `lite_exec`. -/
theorem liteExec_cases (q : LiteQuery) :
    (q.prepares = false ∧ liteExec q = ⟨false, false, 0, 0, []⟩) ∨
      (q.Fails ∧ liteExec q = ⟨false, true, 0, 0, [.prepared, .stepped, .finalized]⟩) ∨
        (q.prepares = true ∧ ¬ q.Fails ∧ ∃ tuples, liteExec q =
          ⟨true, true, tuples, q.changes, [.prepared, .stepped]⟩ ∧
            (tuples = 0 ↔ ∀ columns rest, q.steps ≠ .row columns :: rest)) := by
  rw [liteExec]
  cases prepares : q.prepares with
  | false => exact .inl ⟨rfl, rfl⟩
  | true =>
      right
      simp only [Bool.not_true, Bool.false_eq_true, if_false]
      cases steps : q.steps with
      | nil =>
          refine .inr ⟨trivial, ?_, 0, rfl, by simp⟩
          rintro ⟨-, rest, same⟩
          rw [steps] at same
          cases same
      | cons step rest =>
          cases step with
          | error => exact .inl ⟨⟨prepares, rest, steps⟩, rfl⟩
          | done =>
              refine .inr ⟨trivial, ?_, 0, rfl, by simp⟩
              rintro ⟨-, rest', same⟩
              rw [steps] at same
              cases same
          | row columns =>
              refine .inr ⟨trivial, ?_, 1, rfl, by simp⟩
              rintro ⟨-, rest', same⟩
              rw [steps] at same
              cases same

theorem released_of_open {events : List LiteEvent} (closed : ∀ event ∈ events, event = .read ∨ event = .stepped) :
    Released ([.prepared, .stepped] ++ events ++ [.finalized]) := by
  refine ⟨[.prepared, .stepped] ++ events, by simp [freeResult], ?_⟩
  intro inside
  simp only [List.cons_append, List.nil_append, List.mem_cons] at inside
  rcases inside with same | same | inside
  · cases same
  · cases same
  · rcases closed _ inside with same | same <;> cases same

theorem not_released_twice : ¬ Released ([.prepared, .stepped, .finalized] ++ [.finalized]) := by
  rintro ⟨used, same, once⟩
  have split : ([.prepared, .stepped, .finalized] : List LiteEvent) = used := by
    have whole : ([.prepared, .stepped, .finalized] : List LiteEvent) ++ [.finalized] = used ++ [.finalized] := same
    exact List.append_cancel_right whole
  subst split
  exact once (by decide)

theorem released_nothing : Released [] := ⟨[], rfl, List.not_mem_nil⟩

theorem released_plain : Released ([.prepared, .stepped] ++ [.finalized]) :=
  @released_of_open [] fun _ inside => absurd inside List.not_mem_nil

/-- When the first step does not fail, the result is freed at the end. -/
theorem trace_of_works (use : LiteUse) {tuples : Nat}
    (exec : liteExec q = ⟨true, true, tuples, q.changes, [.prepared, .stepped]⟩) :
    ∃ events : List LiteEvent, use.trace q = [.prepared, .stepped] ++ events ++ [.finalized] ∧
      ∀ event ∈ events, event = .read ∨ event = .stepped := by
  have nothing : ∀ event ∈ ([] : List LiteEvent), event = .read ∨ event = .stepped :=
    fun _ inside => absurd inside List.not_mem_nil
  cases use with
  | execOnly =>
      refine ⟨[], ?_, nothing⟩
      simp only [LiteUse.trace, sqlDbExecOnlyLite, exec, Bool.not_true, Bool.false_eq_true, if_false]
      by_cases empty : tuples = 0
      · rw [if_neg (not_not_intro empty)]
        rfl
      · rw [if_pos empty]
        rfl
  | get unpack =>
      simp only [LiteUse.trace, sqlDbGetLite, exec]
      by_cases empty : tuples = 0
      · exact ⟨[], by rw [if_pos empty]; rfl, nothing⟩
      · refine ⟨[.read], ?_, by simp⟩
        simp only [Bool.not_true, Bool.false_eq_true, if_false, if_neg empty]
        cases unpack (firstRow q) <;> rfl
  | walk unpack accepts =>
      refine ⟨(walkFrom unpack accepts (firstRow q) q.steps.tail 0).2.2, ?_, walkFrom_open _ _ _⟩
      simp only [LiteUse.trace, sqlDbWalkLite, exec]
      rfl
  | expire => exact ⟨[], by simp only [LiteUse.trace, sqlDbExpireLite, exec]; rfl, nothing⟩

end Traces

section Walks
variable {unpack : List Column → Option (List Value)} {accepts : Nat → List Value → Bool}

/-- What SQLite answers for a table: its rows, unless a step fails. -/
def answersFor (rows : List (List Column)) : Option Nat → List LiteStep
  | none => rows.map .row
  | some k => (rows.take k).map .row ++ [.error]

/-- The callback takes these records, from the `n`-th call on. -/
def Accepted (accepts : Nat → List Value → Bool) (n : Nat) (records : List (List Value)) : Prop :=
  ∀ i record, records[i]? = some record → accepts (n + i) record = true

theorem accepted_cons {n : Nat} {record : List Value} {records : List (List Value)} :
    Accepted accepts n (record :: records) ↔ accepts n record = true ∧ Accepted accepts (n + 1) records := by
  constructor
  · intro all
    refine ⟨all 0 record rfl, ?_⟩
    intro i other found
    have later := all (i + 1) other found
    rwa [Nat.add_comm i 1, ← Nat.add_assoc] at later
  · rintro ⟨first, later⟩ i other found
    cases i with
    | zero =>
        cases found
        exact first
    | succ i =>
        have here := later i other found
        rwa [Nat.add_assoc, Nat.add_comm 1 i] at here

/-- A walk that succeeds has read its first row and got on. -/
theorem walk_needs {columns : List Column} {steps : List LiteStep} {n : Nat}
    (zero : (walkFrom unpack accepts columns steps n).1 = 0) :
    ∃ record, unpack columns = some record ∧ accepts n record = true := by
  rw [walkFrom] at zero
  cases read : unpack columns with
  | none =>
      rw [read] at zero
      cases zero
  | some record =>
      refine ⟨record, rfl, ?_⟩
      cases accepted : accepts n record with
      | true => rfl
      | false =>
          rw [read] at zero
          simp [accepted] at zero

theorem walkFrom_last {columns : List Column} {rest : List LiteStep} {n : Nat} {record : List Value}
    (ends : ∀ next more, rest ≠ .row next :: more) (read : unpack columns = some record)
    (accepted : accepts n record = true) :
    walkFrom unpack accepts columns rest n = (0, [record], [.read, .stepped]) := by
  rw [walkFrom, read]
  simp only [accepted, Bool.not_true, Bool.false_eq_true, if_false]

theorem walkFrom_next {columns next : List Column} {steps : List LiteStep} {n : Nat} {record : List Value}
    (read : unpack columns = some record) (accepted : accepts n record = true) :
    (walkFrom unpack accepts columns (.row next :: steps) n).1 = (walkFrom unpack accepts next steps (n + 1)).1 ∧
      (walkFrom unpack accepts columns (.row next :: steps) n).2.1 =
        record :: (walkFrom unpack accepts next steps (n + 1)).2.1 := by
  rw [walkFrom, read]
  simp [accepted]

theorem unpacked_cons {columns : List Column} {rows : List (List Column)} {visited : List (List Value)}
    (same : (columns :: rows).map unpack = visited.map some) :
    ∃ record more, visited = record :: more ∧ unpack columns = some record ∧
      rows.map unpack = more.map some := by
  cases visited with
  | nil => cases same
  | cons record more =>
      rw [List.map_cons, List.map_cons, List.cons.injEq] at same
      exact ⟨record, more, rfl, same.1, same.2⟩

/-- The rows of a walk that succeeds are those before the first answer that is no row. -/
theorem walkFrom_iff (columns : List Column) (rows : List (List Column)) (rest : List LiteStep)
    (ends : ∀ next more, rest ≠ .row next :: more) (n : Nat) (visited : List (List Value)) :
    ((walkFrom unpack accepts columns (rows.map .row ++ rest) n).1 = 0 ∧
        (walkFrom unpack accepts columns (rows.map .row ++ rest) n).2.1 = visited) ↔
      (columns :: rows).map unpack = visited.map some ∧ Accepted accepts n visited := by
  induction rows generalizing columns n visited with
  | nil =>
      rw [List.map_nil, List.nil_append]
      constructor
      · rintro ⟨zero, rfl⟩
        obtain ⟨record, read, accepted⟩ := walk_needs zero
        rw [walkFrom_last ends read accepted]
        refine ⟨by simp [read], accepted_cons.mpr ⟨accepted, ?_⟩⟩
        intro i other found
        cases found
      · rintro ⟨same, all⟩
        obtain ⟨record, more, rfl, read, nothing⟩ := unpacked_cons same
        rw [walkFrom_last ends read (accepted_cons.mp all).1, List.map_eq_nil_iff.mp nothing.symm]
        exact ⟨rfl, rfl⟩
  | cons next rows ih =>
      rw [List.map_cons, List.cons_append]
      constructor
      · rintro ⟨zero, rfl⟩
        obtain ⟨record, read, accepted⟩ := walk_needs zero
        obtain ⟨status, records⟩ := walkFrom_next read accepted
        rw [status] at zero
        rw [records]
        obtain ⟨same, all⟩ := (ih next (n + 1) _).mp ⟨zero, rfl⟩
        refine ⟨?_, accepted_cons.mpr ⟨accepted, all⟩⟩
        calc (columns :: next :: rows).map unpack
          _ = some record :: (next :: rows).map unpack := by rw [List.map_cons, read]
          _ = _ := by rw [same]; rfl
      · rintro ⟨same, all⟩
        obtain ⟨record, more, rfl, read, behind⟩ := unpacked_cons same
        obtain ⟨accepted, later⟩ := accepted_cons.mp all
        obtain ⟨status, records⟩ := walkFrom_next read accepted
        obtain ⟨zero, visited⟩ := (ih next (n + 1) more).mpr ⟨behind, later⟩
        rw [status, records, visited]
        exact ⟨zero, rfl⟩

/-- A walk is the loop, from the first row. -/
theorem walk_of_rows {q : LiteQuery} (prepares : q.prepares = true) {first : List Column}
    {rows : List (List Column)} {rest : List LiteStep} (ends : ∀ next more, rest ≠ .row next :: more)
    (steps : q.steps = .row first :: (rows.map .row ++ rest)) (visited : List (List Value)) :
    ((sqlDbWalkLite unpack accepts q).1 = 0 ∧ (sqlDbWalkLite unpack accepts q).2.1 = visited) ↔
      (first :: rows).map unpack = visited.map some ∧ Accepted accepts 0 visited := by
  have exec : liteExec q = ⟨true, true, 1, q.changes, [.prepared, .stepped]⟩ := by
    simp [liteExec, prepares, steps]
  have row : firstRow q = first := by rw [firstRow, steps]; rfl
  simp only [sqlDbWalkLite, exec, row, steps, List.tail_cons, Bool.not_true, Bool.false_eq_true, if_false]
  exact walkFrom_iff first rows rest ends 0 visited

/-- When there is no row, the walk begins at none. -/
theorem walk_of_none {q : LiteQuery} (prepares : q.prepares = true) (steps : q.steps = [])
    (visited : List (List Value)) :
    ((sqlDbWalkLite unpack accepts q).1 = 0 ∧ (sqlDbWalkLite unpack accepts q).2.1 = visited) ↔
      [q.stale].map unpack = visited.map some ∧ Accepted accepts 0 visited := by
  have exec : liteExec q = ⟨true, true, 0, q.changes, [.prepared, .stepped]⟩ := by
    simp [liteExec, prepares, steps]
  have row : firstRow q = q.stale := by rw [firstRow, steps]; rfl
  simp only [sqlDbWalkLite, exec, row, steps, List.tail_nil, Bool.not_true, Bool.false_eq_true, if_false]
  exact walkFrom_iff q.stale [] [] nofun 0 visited

theorem walk_of_error {q : LiteQuery} {more : List LiteStep} (steps : q.steps = .error :: more) :
    (sqlDbWalkLite unpack accepts q).1 = -1 := by
  cases prepares : q.prepares <;> simp [sqlDbWalkLite, liteExec, prepares, steps]

theorem ends_nothing : ∀ next more, ([] : List LiteStep) ≠ .row next :: more := nofun

theorem ends_error : ∀ next more, ([.error] : List LiteStep) ≠ .row next :: more := by
  intro next more same
  cases same

/-- A walk that has come to so many rows has come to all of them when there are no more. -/
theorem walk_of_take {q : LiteQuery} (prepares : q.prepares = true) {first : List Column}
    {rows : List (List Column)} {rest : List LiteStep} (ends : ∀ next more, rest ≠ .row next :: more) {k : Nat}
    (steps : q.steps = .row first :: ((rows.take k).map .row ++ rest)) :
    ((sqlDbWalkLite unpack accepts q).1 = 0 ∧
        (sqlDbWalkLite unpack accepts q).2.1.map some = (first :: rows).map unpack) ↔
      (∃ records, (first :: rows).map unpack = records.map some ∧ Accepted accepts 0 records) ∧
        rows.length ≤ k := by
  have loop (visited : List (List Value)) : ((sqlDbWalkLite unpack accepts q).1 = 0 ∧
      (sqlDbWalkLite unpack accepts q).2.1 = visited) ↔ _ := walk_of_rows prepares ends steps visited
  constructor
  · rintro ⟨zero, same⟩
    obtain ⟨visited, accepted⟩ := (loop _).mp ⟨zero, rfl⟩
    refine ⟨⟨_, same.symm, accepted⟩, ?_⟩
    have long := congrArg List.length (visited.trans same)
    simp only [List.length_map, List.length_cons, List.length_take] at long
    omega
  · rintro ⟨⟨records, same, accepted⟩, all⟩
    rw [List.take_of_length_le all] at loop
    obtain ⟨zero, visited⟩ := (loop records).mpr ⟨same, accepted⟩
    rw [visited]
    exact ⟨zero, same.symm⟩

end Walks

/-- For every table, every callback, and wherever SQLite fails: `sql_db_walk` succeeds and has
shown the callback the records of all rows, in order, if and only if the table is not
empty, every row can be unpacked and is accepted, and no step fails before the last row.
A walk of an empty table that succeeds has shown a record of no row. -/
theorem walk_complete_iff (unpack : List Column → Option (List Value)) (accepts : Nat → List Value → Bool)
    (rows : List (List Column)) (failsAt : Option Nat) (changes : Nat) (stale : List Column) :
    let walk := sqlDbWalkLite unpack accepts ⟨true, answersFor rows failsAt, changes, stale⟩
    ((walk.1 = 0 ∧ walk.2.1.map some = rows.map unpack) ↔
      rows ≠ [] ∧ (∃ records, rows.map unpack = records.map some ∧ Accepted accepts 0 records) ∧
        ∀ k, failsAt = some k → rows.length ≤ k) ∧
    (rows = [] → walk.1 = 0 → failsAt = none ∧ ∃ record, unpack stale = some record ∧ walk.2.1 = [record]) := by
  cases rows with
  | nil =>
      cases failsAt with
      | none =>
          have loop := @walk_of_none unpack accepts ⟨true, answersFor [] none, changes, stale⟩ rfl rfl
          have phantom (zero : (sqlDbWalkLite unpack accepts ⟨true, answersFor [] none, changes, stale⟩).1 = 0) :
              ∃ record, unpack stale = some record ∧
                (sqlDbWalkLite unpack accepts ⟨true, answersFor [] none, changes, stale⟩).2.1 = [record] := by
            obtain ⟨same, _⟩ := (loop _).mp ⟨zero, rfl⟩
            obtain ⟨record, more, visited, read, nothing⟩ := unpacked_cons same
            rw [List.map_nil] at nothing
            rw [visited, List.map_eq_nil_iff.mp nothing.symm]
            exact ⟨record, read, rfl⟩
          refine ⟨iff_of_false ?_ fun all => all.1 rfl, fun _ zero => ⟨rfl, phantom zero⟩⟩
          rintro ⟨zero, same⟩
          obtain ⟨record, _, visited⟩ := phantom zero
          rw [visited] at same
          cases same
      | some k =>
          have steps : answersFor [] (some k) = [.error] := by simp [answersFor]
          have failed : (sqlDbWalkLite unpack accepts ⟨true, answersFor [] (some k), changes, stale⟩).1 = -1 :=
            walk_of_error steps
          simp only [failed]
          exact ⟨iff_of_false (fun both => by cases both.1) fun all => all.1 rfl, fun _ zero => by cases zero⟩
  | cons first rows =>
      refine ⟨?_, fun empty => by cases empty⟩
      cases failsAt with
      | none =>
          have steps : answersFor (first :: rows) none =
              .row first :: ((rows.take rows.length).map .row ++ []) := by
            rw [List.take_length, List.append_nil]
            rfl
          rw [walk_of_take rfl ends_nothing steps]
          constructor
          · intro both
            exact ⟨List.cons_ne_nil _ _, both.1, fun k cut => by cases cut⟩
          · intro all
            exact ⟨all.2.1, Nat.le_refl _⟩
      | some k =>
          cases k with
          | zero =>
              have failed : (sqlDbWalkLite unpack accepts
                  ⟨true, answersFor (first :: rows) (some 0), changes, stale⟩).1 = -1 :=
                walk_of_error rfl
              simp only [failed]
              exact iff_of_false (fun both => by cases both.1) fun all => by cases all.2.2 0 rfl
          | succ k =>
              have steps : answersFor (first :: rows) (some (k + 1)) =
                  .row first :: ((rows.take k).map .row ++ [.error]) := rfl
              rw [walk_of_take rfl ends_error steps]
              constructor
              · rintro ⟨taken, short⟩
                refine ⟨List.cons_ne_nil _ _, taken, ?_⟩
                intro k' cut
                cases cut
                exact Nat.succ_le_succ short
              · intro all
                exact ⟨all.2.1, Nat.le_of_succ_le_succ (all.2.2 (k + 1) rfl)⟩

end Mopher.Sql
