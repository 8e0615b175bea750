import Mopher.Lib.PartialRun

/-!
# Transactions of the SQL driver

Model of `sql_db_set`, `sql_db_del` and `sql_db_duplicate_key_hack` of `sql.c` on
one connection.  The database answers every `sql_exec` as it likes.  A statement
that fails changes nothing, one that is carried out changes the table of the
transaction that is open, and the table itself changes at `COMMIT`.

`sql_db_set` rolls back wherever it fails after `BEGIN`; `sql_db_del` does not, so
a `DELETE` that fails leaves its transaction open.  The retry of an `INSERT` that
failed holds `key_hack_mutex` while it calls `sql_db_set`, and an `INSERT` that
fails in there, too, asks for the mutex again.
-/

set_option autoImplicit false

namespace Mopher.Sql

inductive Statement (σ : Type) where
  | begin
  | commit
  | rollback
  | query (text : σ)

/-- An answer of `sql_exec` to one of these statements, which return no rows. -/
inductive Answer where
  | failed
  | done (affected : Nat)

/-- `answer n` is the outcome of the `n`-th `sql_exec`, and `effect n` what it does
to the rows.  `update`, `insert` and `delete` are the texts that `sql_update`,
`sql_insert` and `sql_delete` make of a record, if they succeed, and `named` says
that the record has a name. -/
structure Database (ρ σ τ : Type) where
  answer : Nat → Statement σ → Answer
  effect : Nat → σ → τ → τ
  named : ρ → Bool
  update : ρ → Option σ
  insert : ρ → Option σ
  delete : ρ → Option σ

/-- The table, the table as the open transaction sees it, the number of `sql_exec`
made, `key_hack_failed`, whether this thread holds `key_hack_mutex`, and how often
it called `sql_db_set` again. -/
structure State (τ : Type) where
  table : τ
  work : Option τ
  execs : Nat
  keyHackFailed : Bool
  keyHackHeld : Bool
  retries : Nat

/-- A call returns, waits for a mutex of its own, or has nested too deep for the
model to follow. -/
inductive Run (τ : Type) where
  | returned (status : Int) (s : State τ)
  | deadlock
  | exhausted

section Driver
variable {ρ σ τ : Type} (db : Database ρ σ τ)

/-- The effect of a statement that was carried out.  A `BEGIN` in an open
transaction stays in it. -/
def State.apply (s : State τ) (n : Nat) : Statement σ → State τ
  | .begin => { s with work := some (s.work.getD s.table) }
  | .commit => { s with table := s.work.getD s.table, work := none }
  | .rollback => { s with work := none }
  | .query text =>
      match s.work with
      | some view => { s with work := some (db.effect n text view) }
      | none => { s with table := db.effect n text s.table }

/-- `sql_db_exec_only`; `none` is the return value -1. -/
def sqlDbExecOnly (stmt : Statement σ) (s : State τ) : Option Nat × State τ :=
  match db.answer s.execs stmt with
  | .failed => (none, { s with execs := s.execs + 1 })
  | .done affected => (some affected, { s.apply db s.execs stmt with execs := s.execs + 1 })

/-- The label `commit` of `sql_db_set`. -/
def commit (s : State τ) : Run τ :=
  match sqlDbExecOnly db .commit s with
  | (none, s) => .returned (-1) s
  | (some _, s) => .returned 0 s

/-- The label `rollback` of `sql_db_set`. -/
def rollback (s : State τ) : Run τ := .returned (-1) (sqlDbExecOnly db .rollback s).2

variable (fatalErrors : Bool)

/-- `sql_db_set` once no row was updated; `hack` is what it calls when the `INSERT`
fails. -/
def sqlDbSetInsert (hack : ρ → State τ → Run τ) (record : ρ) (s : State τ) : Run τ :=
  match db.insert record with
  | none => rollback db s
  | some query =>
      match sqlDbExecOnly db (.query query) s with
      | (none, s) =>
          if fatalErrors then hack record (sqlDbExecOnly db .rollback s).2 else rollback db s
      | (some affected, s) => if affected ≠ 1 then rollback db s else commit db s

/-- `sql_db_set` after `BEGIN`. -/
def sqlDbSetUpdate (hack : ρ → State τ → Run τ) (record : ρ) (s : State τ) : Run τ :=
  match db.update record with
  | none => rollback db s
  | some query =>
      match sqlDbExecOnly db (.query query) s with
      | (none, s) => rollback db s
      | (some affected, s) =>
          if affected ≠ 0 then commit db s else sqlDbSetInsert db fatalErrors hack record s

def sqlDbSetWith (hack : ρ → State τ → Run τ) (record : ρ) (s : State τ) : Run τ :=
  if !db.named record then .returned (-1) s
  else
    match sqlDbExecOnly db .begin s with
    | (none, s) => .returned (-1) s
    | (some _, s) => sqlDbSetUpdate db fatalErrors hack record s

/-- The thread takes the mutex and tries again. -/
def State.lockKeyHack (s : State τ) : State τ :=
  { s with keyHackHeld := true, retries := s.retries + 1 }

/-- An attempt that failed is the last. -/
def State.unlockKeyHack (s : State τ) (status : Int) : State τ :=
  { s with keyHackHeld := false, keyHackFailed := s.keyHackFailed || decide (status ≠ 0) }

/-- `sql_db_duplicate_key_hack`, with the `sql_db_set` that it calls. -/
def sqlDbDuplicateKeyHack (set : ρ → State τ → Run τ) (record : ρ) (s : State τ) : Run τ :=
  if s.keyHackHeld then .deadlock
  else if s.keyHackFailed then .returned (-1) s
  else
    match set record s.lockKeyHack with
    | .returned status s => .returned status (s.unlockKeyHack status)
    | .deadlock => .deadlock
    | .exhausted => .exhausted

/-- `sql_db_set`, followed through so many calls of itself. -/
def sqlDbSet : Nat → ρ → State τ → Run τ
  | 0 => fun _ _ => .exhausted
  | depth + 1 => sqlDbSetWith db fatalErrors (sqlDbDuplicateKeyHack (sqlDbSet depth))

def sqlDbDel (record : ρ) (s : State τ) : Run τ :=
  if !db.named record then .returned (-1) s
  else
    match db.delete record with
    | none => .returned (-1) s
    | some query =>
        match sqlDbExecOnly db .begin s with
        | (none, s) => .returned (-1) s
        | (some _, s) =>
            match sqlDbExecOnly db (.query query) s with
            | (none, s) => .returned (-1) s
            | (some _, s) =>
                match sqlDbExecOnly db .commit s with
                | (none, s) => .returned (-1) s
                | (some _, s) => .returned 0 s

end Driver

/-! ## What goes wrong -/

section Conditions
variable {ρ σ τ : Type} (db : Database ρ σ τ)

/-- `COMMIT` and `ROLLBACK` succeed. -/
structure Finishes : Prop where
  commit : ∀ n, db.answer n .commit ≠ .failed
  rollback : ∀ n, db.answer n .rollback ≠ .failed

/-- The `n`-th `sql_exec` is an `UPDATE` of the record, and there is no row. -/
def UpdateMisses (record : ρ) (n : Nat) : Prop :=
  ∃ query, db.update record = some query ∧ db.answer n (.query query) = .done 0

/-- The `n`-th `sql_exec` is an `INSERT` of the record, and it fails. -/
def InsertRefused (record : ρ) (n : Nat) : Prop :=
  ∃ query, db.insert record = some query ∧ db.answer n (.query query) = .failed

/-- A `sql_db_set` whose first `sql_exec` is the `n`-th finds no row to update and
cannot insert one. -/
def InsertFails (record : ρ) (n : Nat) : Prop :=
  db.named record = true ∧ db.answer n .begin ≠ .failed ∧ UpdateMisses db record (n + 1) ∧
    InsertRefused db record (n + 2)

/-- A `sql_db_del` whose first `sql_exec` is the `n`-th cannot delete. -/
def DeleteFails (record : ρ) (n : Nat) : Prop :=
  db.named record = true ∧ ∃ query, db.delete record = some query ∧
    db.answer n .begin ≠ .failed ∧ db.answer (n + 1) (.query query) = .failed

end Conditions

/-- The part of the state that only the retry changes. -/
structure SameFlags {τ : Type} (s s' : State τ) : Prop where
  failed : s'.keyHackFailed = s.keyHackFailed
  held : s'.keyHackHeld = s.keyHackHeld
  retries : s'.retries = s.retries

/-- No transaction is open, and if the call failed the table is what it was. -/
def Balanced {τ : Type} (before : State τ) (status : Int) (after : State τ) : Prop :=
  after.work = none ∧ (status = -1 → after.table = before.table)

/-! ## Single statements -/

section Statements
variable {ρ σ τ : Type}

theorem SameFlags.refl (s : State τ) : SameFlags s s := ⟨rfl, rfl, rfl⟩

theorem SameFlags.trans {s t u : State τ} (first : SameFlags s t) (second : SameFlags t u) :
    SameFlags s u :=
  ⟨second.failed.trans first.failed, second.held.trans first.held,
    second.retries.trans first.retries⟩

theorem apply_flags (db : Database ρ σ τ) (s : State τ) (n : Nat) (stmt : Statement σ) :
    SameFlags s (s.apply db n stmt) := by
  cases stmt with
  | begin => exact ⟨rfl, rfl, rfl⟩
  | commit => exact ⟨rfl, rfl, rfl⟩
  | rollback => exact ⟨rfl, rfl, rfl⟩
  | query text =>
      obtain ⟨table, work, execs, failed, held, retries⟩ := s
      cases work with
      | none => exact ⟨rfl, rfl, rfl⟩
      | some view => exact ⟨rfl, rfl, rfl⟩

/-- `sql_db_exec_only` as a relation: the answer decides. -/
theorem exec_cases (db : Database ρ σ τ) (stmt : Statement σ) (s : State τ) :
    (db.answer s.execs stmt = .failed ∧
        sqlDbExecOnly db stmt s = (none, { s with execs := s.execs + 1 })) ∨
      ∃ affected, db.answer s.execs stmt = .done affected ∧
        sqlDbExecOnly db stmt s =
          (some affected, { s.apply db s.execs stmt with execs := s.execs + 1 }) := by
  unfold sqlDbExecOnly
  cases answer : db.answer s.execs stmt with
  | failed => exact .inl ⟨rfl, rfl⟩
  | done affected => exact .inr ⟨affected, rfl, rfl⟩

theorem exec_execs (db : Database ρ σ τ) (stmt : Statement σ) (s : State τ) :
    (sqlDbExecOnly db stmt s).2.execs = s.execs + 1 := by
  rcases exec_cases db stmt s with ⟨_, ran⟩ | ⟨affected, _, ran⟩
  · rw [ran]
  · rw [ran]

theorem exec_flags (db : Database ρ σ τ) (stmt : Statement σ) (s : State τ) :
    SameFlags s (sqlDbExecOnly db stmt s).2 := by
  rcases exec_cases db stmt s with ⟨_, ran⟩ | ⟨affected, _, ran⟩
  · rw [ran]
    exact ⟨rfl, rfl, rfl⟩
  · rw [ran]
    have flags : SameFlags s (s.apply db s.execs stmt) := apply_flags db s s.execs stmt
    exact ⟨flags.failed, flags.held, flags.retries⟩

/-- The call that began in the first state is in a transaction in the second. -/
structure Inside (s t : State τ) : Prop where
  flags : SameFlags s t
  opened : t.work.isSome = true
  table : t.table = s.table

theorem inside_query (db : Database ρ σ τ) {s t : State τ} (text : σ) (inside : Inside s t) :
    Inside s (sqlDbExecOnly db (.query text) t).2 := by
  obtain ⟨view, work⟩ := Option.isSome_iff_exists.mp inside.opened
  refine ⟨inside.flags.trans (exec_flags db _ t), ?_, ?_⟩
  · rcases exec_cases db (.query text) t with ⟨_, ran⟩ | ⟨affected, _, ran⟩
    · rw [ran]
      exact inside.opened
    · rw [ran]
      simp only [State.apply, work]
      rfl
  · rcases exec_cases db (.query text) t with ⟨_, ran⟩ | ⟨affected, _, ran⟩
    · rw [ran]
      exact inside.table
    · rw [ran]
      simp only [State.apply, work]
      exact inside.table

theorem rollback_closes {db : Database ρ σ τ} (finishes : Finishes db) {s t : State τ} (inside : Inside s t) :
    (sqlDbExecOnly db .rollback t).2.work = none ∧
      (sqlDbExecOnly db .rollback t).2.table = s.table := by
  rcases exec_cases db .rollback t with ⟨refused, _⟩ | ⟨affected, _, ran⟩
  · exact (finishes.rollback _ refused).elim
  · rw [ran]
    exact ⟨rfl, inside.table⟩

end Statements

/-! ## One pass through `sql_db_set` -/

section Set
variable {ρ σ τ : Type}

/-- A call that ends by itself keeps the flags and leaves no transaction open. -/
def Ends (db : Database ρ σ τ) (s : State τ) (run : Run τ) : Prop :=
  ∃ status t, run = .returned status t ∧ SameFlags s t ∧
    (Finishes db → s.work = none → Balanced s status t)

theorem ends_rollback (db : Database ρ σ τ) {s t : State τ} (inside : Inside s t) : Ends db s (rollback db t) :=
  ⟨-1, _, rfl, inside.flags.trans (exec_flags db .rollback t), fun finishes _ =>
    ⟨(rollback_closes finishes inside).1, fun _ => (rollback_closes finishes inside).2⟩⟩

theorem ends_commit (db : Database ρ σ τ) {s t : State τ} (inside : Inside s t) : Ends db s (commit db t) := by
  have flags : SameFlags s (sqlDbExecOnly db .commit t).2 :=
    inside.flags.trans (exec_flags db .commit t)
  unfold commit
  rcases exec_cases db .commit t with ⟨refused, ran⟩ | ⟨affected, _, ran⟩
  · rw [ran] at flags ⊢
    exact ⟨-1, _, rfl, flags, fun finishes _ => (finishes.commit _ refused).elim⟩
  · rw [ran] at flags ⊢
    exact ⟨0, _, rfl, flags, fun _ _ => ⟨rfl, fun impossible => by cases impossible⟩⟩

/-- The run goes to the retry after so many `sql_exec` if it fails in that way, and
else it ends. -/
def RetriesWhen (db : Database ρ σ τ) (failing : Prop) (s : State τ) (execs : Nat)
    (retry : State τ → Run τ) (run : Run τ) : Prop :=
  (¬ failing ∧ Ends db s run) ∨
    (failing ∧ ∃ t, run = retry t ∧ t.execs = execs ∧ SameFlags s t ∧
      (Finishes db → t.work = none ∧ t.table = s.table))

theorem sqlDbSetInsert_cases (db : Database ρ σ τ) (fatalErrors : Bool) (hack : ρ → State τ → Run τ) (record : ρ)
    {s t : State τ} (inside : Inside s t) :
    RetriesWhen db (fatalErrors = true ∧ InsertRefused db record t.execs) s (t.execs + 2)
      (hack record) (sqlDbSetInsert db fatalErrors hack record t) := by
  unfold sqlDbSetInsert
  cases built : db.insert record with
  | none =>
      refine .inl ⟨?_, ends_rollback db inside⟩
      rintro ⟨_, query, built', _⟩
      rw [built] at built'
      cases built'
  | some query =>
      have inside' := inside_query db query inside
      have execs := exec_execs db (.query query) t
      rcases exec_cases db (.query query) t with ⟨refused, ran⟩ | ⟨affected, answer, ran⟩
      · rw [ran] at inside' execs
        simp only [ran]
        cases fatalErrors with
        | false =>
            refine .inl ⟨fun failing => (by cases failing.1), ?_⟩
            exact ends_rollback db inside'
        | true =>
            refine .inr ⟨⟨rfl, query, built, refused⟩, _, rfl, ?_, ?_, ?_⟩
            · rw [exec_execs]
            · exact inside'.flags.trans (exec_flags db .rollback _)
            · intro finishes
              exact rollback_closes finishes inside'
      · rw [ran] at inside'
        simp only [ran]
        refine .inl ⟨?_, ?_⟩
        · rintro ⟨_, query', built', refused⟩
          rw [built] at built'
          cases built'
          rw [answer] at refused
          cases refused
        · split
          · exact ends_rollback db inside'
          · exact ends_commit db inside'

theorem sqlDbSetUpdate_cases (db : Database ρ σ τ) (fatalErrors : Bool) (hack : ρ → State τ → Run τ) (record : ρ)
    {s t : State τ} (inside : Inside s t) :
    RetriesWhen db
      (fatalErrors = true ∧ UpdateMisses db record t.execs ∧ InsertRefused db record (t.execs + 1)) s
      (t.execs + 3) (hack record) (sqlDbSetUpdate db fatalErrors hack record t) := by
  unfold sqlDbSetUpdate
  cases built : db.update record with
  | none =>
      refine .inl ⟨?_, ends_rollback db inside⟩
      rintro ⟨_, ⟨query, built', _⟩, _⟩
      rw [built] at built'
      cases built'
  | some query =>
      have inside' := inside_query db query inside
      have execs := exec_execs db (.query query) t
      have only (misses : UpdateMisses db record t.execs) :
          db.answer t.execs (.query query) = .done 0 := by
        obtain ⟨query', built', zero⟩ := misses
        rw [built] at built'
        cases built'
        exact zero
      rcases exec_cases db (.query query) t with ⟨refused, ran⟩ | ⟨affected, answer, ran⟩
      · rw [ran] at inside'
        simp only [ran]
        refine .inl ⟨?_, ends_rollback db inside'⟩
        rintro ⟨_, misses, _⟩
        rw [only misses] at refused
        cases refused
      · rw [ran] at inside' execs
        simp only [ran]
        by_cases missed : affected = 0
        · subst missed
          have misses : UpdateMisses db record t.execs := ⟨query, built, answer⟩
          have rest := sqlDbSetInsert_cases db fatalErrors hack record inside'
          simp only [ne_eq, not_true, if_false, misses, true_and]
          exact rest
        · simp only [ne_eq, missed, not_false_eq_true, if_true]
          refine .inl ⟨?_, ends_commit db inside'⟩
          rintro ⟨_, misses, _⟩
          rw [only misses] at answer
          cases answer
          exact missed rfl

/-- `sql_db_set` goes to the retry exactly when errors are fatal and the `INSERT`
fails; everywhere else it ends. -/
theorem sqlDbSetWith_cases (db : Database ρ σ τ) (fatalErrors : Bool) (hack : ρ → State τ → Run τ) (record : ρ)
    (s : State τ) :
    RetriesWhen db (fatalErrors = true ∧ InsertFails db record s.execs) s (s.execs + 4)
      (hack record) (sqlDbSetWith db fatalErrors hack record s) := by
  unfold sqlDbSetWith
  cases named : db.named record with
  | false =>
      refine .inl ⟨?_, -1, s, rfl, SameFlags.refl s, fun _ closed => ⟨closed, fun _ => rfl⟩⟩
      rintro ⟨_, failing⟩
      rw [failing.1] at named
      cases named
  | true =>
      have flags := exec_flags db .begin s
      simp only [Bool.not_true, Bool.false_eq_true, if_false]
      rcases exec_cases db .begin s with ⟨refused, ran⟩ | ⟨affected, answer, ran⟩
      · rw [ran] at flags
        simp only [ran]
        refine .inl ⟨fun failing => failing.2.2.1 refused, -1, _, rfl, flags, ?_⟩
        intro _ closed
        exact ⟨closed, fun _ => rfl⟩
      · rw [ran] at flags
        simp only [ran]
        have begins : db.answer s.execs .begin ≠ .failed := by
          rw [answer]
          exact fun impossible => by cases impossible
        have inside : Inside s { s.apply db s.execs .begin with execs := s.execs + 1 } :=
          ⟨flags, rfl, rfl⟩
        have rest := sqlDbSetUpdate_cases db fatalErrors hack record inside
        unfold InsertFails
        simp only [named, begins, ne_eq, not_false_eq_true, true_and]
        exact rest

end Set

/-! ## The retry -/

section Retry
variable {ρ σ τ : Type} (db : Database ρ σ τ)

/-- `sql_db_set` of a thread that holds the mutex ends, or it waits for itself. -/
theorem sqlDbSet_held (fatalErrors : Bool) (depth : Nat) (record : ρ) {s : State τ}
    (held : s.keyHackHeld = true) :
    (¬ (fatalErrors = true ∧ InsertFails db record s.execs) ∧
        Ends db s (sqlDbSet db fatalErrors (depth + 1) record s)) ∨
      ((fatalErrors = true ∧ InsertFails db record s.execs) ∧
        sqlDbSet db fatalErrors (depth + 1) record s = .deadlock) := by
  rcases sqlDbSetWith_cases db fatalErrors
      (sqlDbDuplicateKeyHack (sqlDbSet db fatalErrors depth)) record s with ended | ⟨failing, t, ran, _, flags, _⟩
  · exact .inl ended
  · refine .inr ⟨failing, ?_⟩
    rw [sqlDbSet, ran, sqlDbDuplicateKeyHack, flags.held, held]
    rfl

/-- The attempts of a call whose first `sql_exec` is the `n`-th both fail. -/
def FailsTwice (record : ρ) (n : Nat) : Prop :=
  InsertFails db record n ∧ InsertFails db record (n + 4)

/-- A call returns and has retried at most once. -/
def ReturnsInTime (s : State τ) (run : Run τ) : Prop :=
  ∃ status t, run = .returned status t ∧ t.retries ≤ s.retries + 1

/-- With two levels the call is followed to its end, which is a deadlock exactly
when both attempts fail and the retry was never given up. -/
theorem sqlDbSet_ends (depth : Nat) (record : ρ) {s : State τ} (free : s.keyHackHeld = false) :
    ((s.keyHackFailed = true ∨ ¬ FailsTwice db record s.execs) ∧
        ReturnsInTime s (sqlDbSet db true (depth + 2) record s)) ∨
      (¬ (s.keyHackFailed = true ∨ ¬ FailsTwice db record s.execs) ∧
        sqlDbSet db true (depth + 2) record s = .deadlock) := by
  rcases sqlDbSetWith_cases db true (sqlDbDuplicateKeyHack (sqlDbSet db true (depth + 1))) record s with
    ⟨intact, status, t, ran, flags, _⟩ | ⟨failing, t, ran, execs, flags, _⟩
  · refine .inl ⟨.inr fun twice => intact ⟨rfl, twice.1⟩, status, t, ran, ?_⟩
    rw [flags.retries]
    omega
  · have unheld : t.keyHackHeld = false := flags.held.trans free
    have entered : sqlDbSet db true (depth + 2) record s =
        sqlDbDuplicateKeyHack (sqlDbSet db true (depth + 1)) record t := ran
    cases given : s.keyHackFailed with
    | true =>
        refine .inl ⟨.inl rfl, -1, t, ?_, ?_⟩
        · rw [entered, sqlDbDuplicateKeyHack, unheld, flags.failed, given]
          rfl
        · rw [flags.retries]
          omega
    | false =>
        have notGiven : t.keyHackFailed = false := flags.failed.trans given
        rcases sqlDbSet_held db true depth record (s := t.lockKeyHack) rfl with
          ⟨intact, status, u, ran', flags', _⟩ | ⟨failing', ran'⟩
        · refine .inl ⟨.inr ?_, status, u.unlockKeyHack status, ?_, ?_⟩
          · intro twice
            refine intact ⟨rfl, ?_⟩
            change InsertFails db record t.execs
            rw [execs]
            exact twice.2
          · rw [entered, sqlDbDuplicateKeyHack, unheld, notGiven, ran']
            rfl
          · change u.retries ≤ s.retries + 1
            rw [flags'.retries, ← flags.retries]
            exact le_rfl
        · have twice : FailsTwice db record s.execs := by
            refine ⟨failing.2, ?_⟩
            rw [← execs]
            exact failing'.2
          refine .inr ⟨?_, ?_⟩
          · simp [twice]
          · rw [entered, sqlDbDuplicateKeyHack, unheld, notGiven, ran']
            rfl

/-- Below two levels a call that returns did so without a retry. -/
theorem sqlDbSet_shallow {depth : Nat} (shallow : depth < 2) (record : ρ) {s t : State τ}
    {status : Int} (free : s.keyHackHeld = false)
    (ran : sqlDbSet db true depth record s = .returned status t) :
    s.keyHackFailed = true ∨ ¬ FailsTwice db record s.execs := by
  obtain rfl | rfl : depth = 0 ∨ depth = 1 := by omega
  · cases ran
  · rcases sqlDbSetWith_cases db true (sqlDbDuplicateKeyHack (sqlDbSet db true 0)) record s with
      ⟨intact, _⟩ | ⟨_, u, entered, _, flags, _⟩
    · exact .inr fun twice => intact ⟨rfl, twice.1⟩
    · left
      cases given : s.keyHackFailed with
      | true => rfl
      | false =>
          rw [sqlDbSet, entered, sqlDbDuplicateKeyHack, flags.held, free, flags.failed, given] at ran
          cases ran

/-- With `cf_dbt_fatal_errors`, a call returns after at most one retry and never
waits for a mutex of its own exactly when the retry was given up earlier or one of
the two attempts gets by. -/
theorem retry_returns_iff (record : ρ) {s : State τ} (free : s.keyHackHeld = false) :
    (∃ depth, ReturnsInTime s (sqlDbSet db true depth record s)) ↔
      s.keyHackFailed = true ∨ ¬ FailsTwice db record s.execs := by
  constructor
  · rintro ⟨depth, status, t, ran, _⟩
    by_cases shallow : depth < 2
    · exact sqlDbSet_shallow db shallow record free ran
    · obtain ⟨deep, rfl⟩ : ∃ deep, depth = deep + 2 := ⟨depth - 2, by omega⟩
      rcases sqlDbSet_ends db deep record free with ⟨fine, _⟩ | ⟨_, stuck⟩
      · exact fine
      · rw [stuck] at ran
        cases ran
  · intro fine
    refine ⟨2, ?_⟩
    rcases sqlDbSet_ends db 0 record free with ⟨_, returns⟩ | ⟨stuck, _⟩
    · exact returns
    · exact (stuck fine).elim

end Retry

/-! ## Sequences of calls -/

section Calls
variable {ρ σ τ : Type} (db : Database ρ σ τ) (fatalErrors : Bool)

inductive Call (ρ : Type) where
  | set (record : ρ)
  | del (record : ρ)

/-- Two levels are all that `sql_db_set` can nest. -/
def sqlCall (call : Call ρ) (s : State τ) : Run τ :=
  match call with
  | .set record => sqlDbSet db fatalErrors 2 record s
  | .del record => sqlDbDel db record s

/-- The state after a call that returned. -/
def sqlStep (s : State τ) (call : Call ρ) : Option (State τ) :=
  match sqlCall db fatalErrors call s with
  | .returned _ next => some next
  | _ => none

/-- If the call returns it is balanced. -/
def ReturnsBalanced (s : State τ) (call : Call ρ) : Prop :=
  ∀ status next, sqlCall db fatalErrors call s = .returned status next → Balanced s status next

/-- The call is not a `sql_db_del` that cannot delete. -/
def Deletes (s : State τ) (call : Call ρ) : Prop :=
  ∀ record, call = .del record → ¬ DeleteFails db record s.execs

theorem hack_balanced {set : ρ → State τ → Run τ}
    (inner : ∀ record status s t, s.work = none → set record s = .returned status t →
      Balanced s status t) (record : ρ) {s t : State τ} {status : Int} (closed : s.work = none)
    (ran : sqlDbDuplicateKeyHack set record s = .returned status t) : Balanced s status t := by
  unfold sqlDbDuplicateKeyHack at ran
  split at ran
  · cases ran
  · split at ran
    · cases ran
      exact ⟨closed, fun _ => rfl⟩
    · split at ran
      · rename_i result u called
        cases ran
        exact inner record status s.lockKeyHack u closed called
      · cases ran
      · cases ran

/-- A `sql_db_set` that returns is balanced, however deep it nests. -/
theorem sqlDbSet_balanced (finishes : Finishes db) (depth : Nat) : ∀ (record : ρ) (status : Int)
    (s t : State τ), s.work = none → sqlDbSet db fatalErrors depth record s = .returned status t →
      Balanced s status t := by
  induction depth with
  | zero =>
      intro record status s t _ ran
      cases ran
  | succ depth ih =>
      intro record status s t closed ran
      rcases sqlDbSetWith_cases db fatalErrors
          (sqlDbDuplicateKeyHack (sqlDbSet db fatalErrors depth)) record s with
        ⟨_, status', t', ran', _, balanced⟩ | ⟨_, u, entered, _, _, undone⟩
      · rw [sqlDbSet, ran'] at ran
        cases ran
        exact balanced finishes closed
      · rw [sqlDbSet, entered] at ran
        obtain ⟨closed', table⟩ := undone finishes
        obtain ⟨work, unchanged⟩ := hack_balanced ih record closed' ran
        exact ⟨work, fun refused => (unchanged refused).trans table⟩

/-- A `sql_db_del` is balanced exactly when its `DELETE` does not fail. -/
theorem sqlDbDel_balanced_iff (finishes : Finishes db) (record : ρ) {s : State τ}
    (closed : s.work = none) :
    (∃ status t, sqlDbDel db record s = .returned status t ∧ Balanced s status t) ↔
      ¬ DeleteFails db record s.execs := by
  unfold sqlDbDel
  cases named : db.named record with
  | false =>
      refine iff_of_true ⟨-1, s, rfl, closed, fun _ => rfl⟩ ?_
      intro failing
      rw [failing.1] at named
      cases named
  | true =>
      simp only [Bool.not_true, Bool.false_eq_true, if_false]
      cases built : db.delete record with
      | none =>
          refine iff_of_true ⟨-1, s, rfl, closed, fun _ => rfl⟩ ?_
          rintro ⟨_, query, built', _⟩
          rw [built] at built'
          cases built'
      | some query =>
          rcases exec_cases db .begin s with ⟨refused, ran⟩ | ⟨affected, answer, ran⟩
          · simp only [ran]
            refine iff_of_true ⟨-1, _, rfl, closed, fun _ => rfl⟩ ?_
            rintro ⟨_, _, _, begins, _⟩
            exact begins refused
          · simp only [ran]
            rcases exec_cases db (.query query)
                { s.apply db s.execs .begin with execs := s.execs + 1 } with
              ⟨refused, ran'⟩ | ⟨affected', answer', ran'⟩
            · -- the transaction that was begun is still open
              simp only [ran']
              refine iff_of_false ?_ ?_
              · rintro ⟨status, t, same, opened, _⟩
                cases same
                cases opened
              · rw [not_not]
                refine ⟨named, query, built, ?_, refused⟩
                rw [answer]
                exact fun impossible => by cases impossible
            · simp only [ran']
              have intact : ¬ DeleteFails db record s.execs := by
                rintro ⟨_, query', built', _, refused⟩
                rw [built] at built'
                cases built'
                rw [show db.answer (s.execs + 1) (.query query) = .done affected' from answer']
                  at refused
                cases refused
              refine iff_of_true ?_ intact
              rcases exec_cases db .commit
                  { State.apply db { s.apply db s.execs .begin with execs := s.execs + 1 }
                      (s.execs + 1) (.query query) with execs := s.execs + 1 + 1 } with
                ⟨refused, _⟩ | ⟨affected'', _, ran''⟩
              · exact (finishes.commit _ refused).elim
              · simp only [ran'']
                exact ⟨0, _, rfl, rfl, fun impossible => by cases impossible⟩

theorem sqlDbDel_returns (record : ρ) (s : State τ) :
    ∃ status t, sqlDbDel db record s = .returned status t := by
  unfold sqlDbDel
  repeat' first | exact ⟨_, _, rfl⟩ | split

/-- From a connection without an open transaction, a call is balanced exactly when
it is not a `sql_db_del` that cannot delete. -/
theorem returnsBalanced_iff (finishes : Finishes db) {s : State τ} (call : Call ρ)
    (closed : s.work = none) :
    ReturnsBalanced db fatalErrors s call ↔ Deletes db s call := by
  cases call with
  | set record =>
      refine iff_of_true ?_ (fun _ impossible => by cases impossible)
      intro status next ran
      exact sqlDbSet_balanced db fatalErrors finishes 2 record status s next closed ran
  | del record =>
      obtain ⟨status, t, ran⟩ := sqlDbDel_returns db record s
      have alone : ReturnsBalanced db fatalErrors s (.del record) ↔
          ∃ status t, sqlDbDel db record s = .returned status t ∧ Balanced s status t := by
        constructor
        · intro balanced
          exact ⟨status, t, ran, balanced status t ran⟩
        · rintro ⟨status', t', ran', balanced⟩ status'' t'' ran''
          have same : sqlDbDel db record s = .returned status'' t'' := ran''
          rw [ran'] at same
          cases same
          exact balanced
      rw [alone, sqlDbDel_balanced_iff db finishes record closed]
      constructor
      · rintro intact _ ⟨⟩
        exact intact
      · intro intact
        exact intact record rfl

/-- Over every sequence of calls, each call that returns leaves no transaction open
and has not changed the table if it failed, exactly when no `DELETE` of a
`sql_db_del` fails. -/
theorem calls_leave_no_transaction_iff (finishes : Finishes db) (calls : List (Call ρ))
    {s : State τ} (closed : s.work = none) :
    PartialRun.EachStep (sqlStep db fatalErrors) (ReturnsBalanced db fatalErrors) s calls ↔
      PartialRun.EachStep (sqlStep db fatalErrors) (Deletes db) s calls := by
  refine PartialRun.eachStep_congr _ (fun s => s.work = none) ?_ ?_ calls closed
  · intro s call closed
    exact returnsBalanced_iff db fatalErrors finishes call closed
  · intro s call next _ stepped balanced
    unfold sqlStep at stepped
    split at stepped
    · rename_i status next' ran
      cases stepped
      exact (balanced status next ran).1
    · cases stepped

end Calls

/-! ## A small database -/

/-- The answers to `BEGIN` and to queries are given, then one row is affected. -/
def scripted (answers : List Answer) : Database Unit Nat Nat where
  answer n stmt :=
    match stmt with
    | .commit => .done 0
    | .rollback => .done 0
    | _ => answers.getD n (.done 1)
  effect _ text rows := rows + text
  named _ := true
  update _ := some 1
  insert _ := some 2
  delete _ := some 3

theorem scripted_finishes (answers : List Answer) : Finishes (scripted answers) where
  commit _ impossible := by cases impossible
  rollback _ impossible := by cases impossible

def connected : State Nat := ⟨0, none, 0, false, false, 0⟩

/-- A record is set and deleted on a database that never fails. -/
theorem set_and_delete_leave_no_transaction :
    PartialRun.EachStep (sqlStep (scripted []) true) (ReturnsBalanced (scripted []) true) connected
      [.set (), .del ()] := by
  apply (calls_leave_no_transaction_iff (scripted []) true (scripted_finishes []) _ rfl).mpr
  intro front call back before split ran record same failing
  obtain ⟨_, query, _, _, refused⟩ := failing
  cases refused

/-- A `DELETE` that fails leaves the transaction open. -/
theorem failed_delete_stays_open :
    sqlDbDel (scripted [.done 0, .failed]) () connected =
      .returned (-1) { connected with work := some 0, execs := 2 } ∧
    ¬ PartialRun.EachStep (sqlStep (scripted [.done 0, .failed]) true)
      (ReturnsBalanced (scripted [.done 0, .failed]) true) connected [.del ()] := by
  refine ⟨rfl, ?_⟩
  intro each
  have balanced := each [] (.del ()) [] connected rfl rfl (-1) _ rfl
  cases balanced.1

/-- The first `INSERT` fails, the second one does not. -/
theorem second_insert_gets_by :
    ∃ depth, ReturnsInTime connected
      (sqlDbSet (scripted [.done 0, .done 0, .failed, .done 0, .done 0, .done 0]) true depth ()
        connected) := by
  apply (retry_returns_iff _ () rfl).mpr
  right
  rintro ⟨_, _, _, _, query, built, refused⟩
  cases built
  cases refused

/-- Both fail: the thread locks the mutex that it holds. -/
theorem second_failure_locks_twice :
    sqlDbSet (scripted [.done 0, .done 0, .failed, .done 0, .done 0, .done 0, .failed]) true 2 ()
      connected = .deadlock ∧
    ¬ ∃ depth, ReturnsInTime connected
      (sqlDbSet (scripted [.done 0, .done 0, .failed, .done 0, .done 0, .done 0, .failed]) true depth
        () connected) := by
  refine ⟨rfl, ?_⟩
  rintro ⟨depth, status, t, ran, _⟩
  obtain rfl | rfl | ⟨deeper, rfl⟩ : depth = 0 ∨ depth = 1 ∨ ∃ deeper, depth = deeper + 2 := by
    by_cases shallow : depth < 2
    · omega
    · exact .inr (.inr ⟨depth - 2, by omega⟩)
  · cases ran
  · cases ran
  · cases ran

end Mopher.Sql
