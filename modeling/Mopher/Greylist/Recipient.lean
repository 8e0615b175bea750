import Mopher.Vtable

/-!
# Greylisting one recipient

Model of `greylist_properties`, `greylist_tuple_counted`, `greylist_add`,
`greylist_recipient` and `greylist` of `greylist.c`.

The greylist table of the database is a map from tuples to records; its
operations succeed.  A rule's expressions stay abstract: `eval e mailspec` is
the integer `greylist_eval` obtains, or `none` where it returns -1.  Counters
and times are integers.  `VAR_INT_T` is a signed `long`, whose overflow has no
meaning in C and none here; the narrowing of the waiting time to an `int` has
one and is kept.
-/

set_option autoImplicit false

namespace Mopher.Greylist

/-- Key fields of the greylist scheme. -/
structure Tuple where
  origin : Bytes
  envfrom : Bytes
  envrcpt : Bytes
deriving Repr, DecidableEq

/-- Non-key fields of the greylist scheme. -/
structure Record where
  created : Int
  updated : Int
  expire : Int
  connections : Int
  deadline : Int
  delay : Int
  attempts : Int
  visa : Int
  passed : Int
deriving Repr, DecidableEq

abbrev Store := Tuple → Option Record

/-- `greylist_t`.  A flag of `gl_flags` is set together with its expression. -/
structure GreylistRule (E : Type) where
  glDeadline : Option E
  glDelay : Option E
  glAttempts : Option E
  glVisa : Option E
deriving Repr, DecidableEq

/-- `gl_flags == GLF_NULL`. -/
def GreylistRule.isEmpty {E : Type} (gl : GreylistRule E) : Bool :=
  gl.glDeadline.isNone && gl.glDelay.isNone && gl.glAttempts.isNone && gl.glVisa.isNone

/-- The two configuration values that `greylist_add` falls back to. -/
structure Config where
  cfGreylistDeadline : Int
  cfGreylistVisa : Int

def connectionCounted : String := "greylist_connection_counted"

def passedCounted : String := "greylist_passed_counted"

/-- Conversion of a `long` to an `int`. -/
def toInt (x : Int) : Int := x.bmod (2 ^ 32)

theorem toInt_of_bounds (x : Int) (low : -2147483648 ≤ x) (high : x < 2147483648) :
    toInt x = x := by
  unfold toInt
  rw [Int.bmod_eq_of_le] <;> omega

section Model
variable {E : Type} (cf : Config) (eval : E → Table → Option Int)

/-- One round of the loop in `greylist_properties`: a property whose flag is
not set keeps the value it has. -/
def greylistProperty (exp : Option E) (mailspec : Table) (value : Int) : Option Int :=
  match exp with
  | none => some value
  | some e => eval e mailspec

/-- `greylist_properties`; `none` is the return value -1. -/
def greylistProperties (gl : GreylistRule E) (mailspec : Table) (record : Record) :
    Option Record := do
  let deadline ← greylistProperty eval gl.glDeadline mailspec record.deadline
  let delay ← greylistProperty eval gl.glDelay mailspec record.delay
  let attempts ← greylistProperty eval gl.glAttempts mailspec record.attempts
  let visa ← greylistProperty eval gl.glVisa mailspec record.visa
  let expire := if gl.glDeadline.isSome then record.created + deadline else record.expire
  return { record with deadline, delay, attempts, visa, expire }

/-- The search loop of `greylist_tuple_counted`: `some 1` for a match, `some
(-1)` for an item of another type, `none` when the list is exhausted. -/
def countedSearch (needle : Bytes) : List (Option Value) → Option Int
  | [] => none
  | none :: _ => none
  | some (.scalar (.string text)) :: rest =>
      if needle = text then some 1 else countedSearch needle rest
  | some _ :: _ => some (-1)

/-- `greylist_tuple_counted`: 1 if `needle` is on the list `haystack` of the
mailspec, else it is appended and the result is 0.  The two lists are bound by
this function only, so the last case does not arise. -/
def greylistTupleCounted (mailspec : Table) (haystack : String) (needle : Bytes) :
    Int × Table :=
  match mailspec haystack with
  | none => (0, vtableSet mailspec haystack (.list [some (.string needle)]))
  | some (.list items) =>
      match countedSearch needle items with
      | some result => (result, mailspec)
      | none => (0, vtableSet mailspec haystack (.list (items ++ [some (.string needle)])))
  | some _ => (-1, mailspec)

/-- What a call decides once it has read the record: its return value, the
value stored through `delayed`, the record it writes back and the mailspec. -/
structure Attempt where
  result : Int
  delayed : Int
  write : Option Record
  mailspec : Table

/-- Local variables of `greylist_add` before the properties are evaluated. -/
def newRecord (received : Int) : Record :=
  { created := received, updated := received, expire := 0, connections := 1,
    deadline := 0, delay := 0, attempts := 0, visa := 0, passed := 0 }

def withDefaults (record : Record) (received : Int) : Record :=
  let deadline := if record.deadline = 0 then cf.cfGreylistDeadline else record.deadline
  let visa := if record.visa = 0 then cf.cfGreylistVisa else record.visa
  { record with deadline, visa, expire := received + deadline }

def greylistAdd (gl : GreylistRule E) (mailspec : Table) (received : Int) : Attempt :=
  match greylistProperties eval gl mailspec (newRecord received) with
  | none => ⟨-1, 0, none, mailspec⟩
  | some record => ⟨1, 0, some (withDefaults cf record received), mailspec⟩

/-- The part of `greylist_recipient` after an unexpired record had its
properties updated. -/
def greylistUpdate (mailspec : Table) (envrcpt : Bytes) (received : Int)
    (record : Record) : Attempt :=
  let (counted, mailspec) := greylistTupleCounted mailspec connectionCounted envrcpt
  let connections := if counted = 0 then record.connections + 1 else record.connections
  let passedDelay := toInt (received - record.created)
  if passedDelay > record.delay ∧ connections > record.attempts then
    let (counted, mailspec) := greylistTupleCounted mailspec passedCounted envrcpt
    let passed := if counted = 0 then record.passed + 1 else record.passed
    ⟨0, if passed = 1 then passedDelay else 0,
      some { record with
        connections, passed, expire := received + record.visa, updated := received },
      mailspec⟩
  else
    ⟨1, 0,
      some { record with
        connections, passed := 0, expire := record.created + record.deadline,
        updated := received },
      mailspec⟩

/-- `greylist_recipient` between `dbt_db_get` and `dbt_db_set`. -/
def greylistAttempt (gl : GreylistRule E) (mailspec : Table) (envrcpt : Bytes)
    (received : Int) (record : Option Record) : Attempt :=
  match record with
  | none =>
      if gl.isEmpty then ⟨0, 0, none, mailspec⟩
      else greylistAdd cf eval gl mailspec received
  | some record =>
      if record.expire < received then greylistAdd cf eval gl mailspec received
      else
        match greylistProperties eval gl mailspec record with
        | none => ⟨-1, 0, none, mailspec⟩
        | some updated => greylistUpdate mailspec envrcpt received updated

def Attempt.commit (attempt : Attempt) (tuple : Tuple) (store : Store) : Store :=
  match attempt.write with
  | none => store
  | some record => Function.update store tuple (some record)

structure Outcome where
  result : Int
  delayed : Int
  store : Store
  mailspec : Table

def greylistRecipient (gl : GreylistRule E) (store : Store) (mailspec : Table)
    (tuple : Tuple) (received : Int) : Outcome :=
  let attempt := greylistAttempt cf eval gl mailspec tuple.envrcpt received (store tuple)
  ⟨attempt.result, attempt.delayed, attempt.commit tuple store, attempt.mailspec⟩

end Model

/-! ## What one call can do -/

section Cases
variable {E : Type} (cf : Config) (eval : E → Table → Option Int)

/-- Every property of the rule that is set evaluates to an integer. -/
def GreylistRule.Evaluates (gl : GreylistRule E) (mailspec : Table) : Prop :=
  ∀ exp ∈ [gl.glDeadline, gl.glDelay, gl.glAttempts, gl.glVisa],
    ∀ e ∈ exp, (eval e mailspec).isSome

/-- `record` is what a call at `received` finds live. -/
def Unexpired (received : Int) (record : Option Record) : Prop :=
  ∃ r, record = some r ∧ received ≤ r.expire

theorem greylistProperty_evaluates (exp : Option E) (mailspec : Table) (value : Int)
    (evaluates : ∀ e ∈ exp, (eval e mailspec).isSome) :
    ∃ result, greylistProperty eval exp mailspec value = some result := by
  cases exp with
  | none => exact ⟨value, rfl⟩
  | some e => exact Option.isSome_iff_exists.mp (evaluates e rfl)

theorem greylistProperties_evaluates {gl : GreylistRule E} {mailspec : Table} (record : Record)
    (evaluates : gl.Evaluates eval mailspec) :
    ∃ result, greylistProperties eval gl mailspec record = some result := by
  obtain ⟨deadline, deadlineRun⟩ := greylistProperty_evaluates eval gl.glDeadline mailspec
    record.deadline (evaluates _ (by simp))
  obtain ⟨delay, delayRun⟩ := greylistProperty_evaluates eval gl.glDelay mailspec
    record.delay (evaluates _ (by simp))
  obtain ⟨attempts, attemptsRun⟩ := greylistProperty_evaluates eval gl.glAttempts mailspec
    record.attempts (evaluates _ (by simp))
  obtain ⟨visa, visaRun⟩ := greylistProperty_evaluates eval gl.glVisa mailspec
    record.visa (evaluates _ (by simp))
  simp [greylistProperties, deadlineRun, delayRun, attemptsRun, visaRun]

/-- Properties change neither the creation time nor a counter. -/
theorem greylistProperties_keeps {gl : GreylistRule E} {mailspec : Table} {record updated : Record}
    (run : greylistProperties eval gl mailspec record = some updated) :
    updated.created = record.created ∧ updated.connections = record.connections ∧
      updated.passed = record.passed := by
  simp only [greylistProperties, Option.bind_eq_bind, Option.pure_def] at run
  obtain ⟨deadline, -, run⟩ := Option.bind_eq_some_iff.mp run
  obtain ⟨delay, -, run⟩ := Option.bind_eq_some_iff.mp run
  obtain ⟨attempts, -, run⟩ := Option.bind_eq_some_iff.mp run
  obtain ⟨visa, -, run⟩ := Option.bind_eq_some_iff.mp run
  cases Option.some.inj run
  exact ⟨rfl, rfl, rfl⟩

/-- Each property in effect after `greylist_properties` is the rule's value if
the rule sets it, else the stored one. -/
theorem greylistProperties_effect {gl : GreylistRule E} {mailspec : Table} {record updated : Record}
    (run : greylistProperties eval gl mailspec record = some updated) :
    greylistProperty eval gl.glDeadline mailspec record.deadline = some updated.deadline ∧
    greylistProperty eval gl.glDelay mailspec record.delay = some updated.delay ∧
    greylistProperty eval gl.glAttempts mailspec record.attempts = some updated.attempts ∧
    greylistProperty eval gl.glVisa mailspec record.visa = some updated.visa := by
  simp only [greylistProperties, Option.bind_eq_bind, Option.pure_def] at run
  obtain ⟨deadline, deadlineRun, run⟩ := Option.bind_eq_some_iff.mp run
  obtain ⟨delay, delayRun, run⟩ := Option.bind_eq_some_iff.mp run
  obtain ⟨attempts, attemptsRun, run⟩ := Option.bind_eq_some_iff.mp run
  obtain ⟨visa, visaRun, run⟩ := Option.bind_eq_some_iff.mp run
  cases Option.some.inj run
  exact ⟨deadlineRun, delayRun, attemptsRun, visaRun⟩

/-- Everything `greylist_recipient` can do with the record it read. -/
theorem greylistAttempt_cases (gl : GreylistRule E) (mailspec : Table) (envrcpt : Bytes)
    (received : Int) (record : Option Record) :
    (record = none ∧ gl.isEmpty = true ∧
      greylistAttempt cf eval gl mailspec envrcpt received record = ⟨0, 0, none, mailspec⟩) ∨
    (¬ Unexpired received record ∧ (record = none → gl.isEmpty = false) ∧
      greylistAttempt cf eval gl mailspec envrcpt received record =
        greylistAdd cf eval gl mailspec received) ∨
    (∃ r, record = some r ∧ received ≤ r.expire ∧
      greylistProperties eval gl mailspec r = none ∧
      greylistAttempt cf eval gl mailspec envrcpt received record = ⟨-1, 0, none, mailspec⟩) ∨
    (∃ r updated, record = some r ∧ received ≤ r.expire ∧
      greylistProperties eval gl mailspec r = some updated ∧
      greylistAttempt cf eval gl mailspec envrcpt received record =
        greylistUpdate mailspec envrcpt received updated) := by
  cases record with
  | none =>
      by_cases empty : gl.isEmpty = true
      · exact .inl ⟨rfl, empty, by simp [greylistAttempt, empty]⟩
      · refine .inr (.inl ⟨?_, ?_, ?_⟩)
        · rintro ⟨r, found, -⟩
          cases found
        · simpa using empty
        · simp [greylistAttempt, empty]
  | some r =>
      by_cases expired : r.expire < received
      · refine .inr (.inl ⟨?_, ?_, ?_⟩)
        · rintro ⟨r', found, live⟩
          cases found
          omega
        · intro absent
          cases absent
        · simp [greylistAttempt, expired]
      · have live : received ≤ r.expire := by omega
        cases run : greylistProperties eval gl mailspec r with
        | none => exact .inr (.inr (.inl ⟨r, rfl, live, run, by simp [greylistAttempt, expired, run]⟩))
        | some updated =>
            exact .inr (.inr (.inr
              ⟨r, updated, rfl, live, run, by simp [greylistAttempt, expired, run]⟩))

theorem greylistAdd_cases (gl : GreylistRule E) (mailspec : Table) (received : Int) :
    (greylistProperties eval gl mailspec (newRecord received) = none ∧
      greylistAdd cf eval gl mailspec received = ⟨-1, 0, none, mailspec⟩) ∨
    (∃ record, greylistAdd cf eval gl mailspec received = ⟨1, 0, some record, mailspec⟩ ∧
      record.created = received ∧ record.connections = 1 ∧ record.passed = 0) := by
  cases run : greylistProperties eval gl mailspec (newRecord received) with
  | none => exact .inl ⟨rfl, by simp [greylistAdd, run]⟩
  | some record =>
      obtain ⟨created, connections, passed⟩ := greylistProperties_keeps eval run
      exact .inr ⟨withDefaults cf record received, by simp [greylistAdd, run],
        created, connections, passed⟩

/-- The record written back for a live record, and the verdict that goes with it. -/
theorem greylistUpdate_write (mailspec : Table) (envrcpt : Bytes) (received : Int)
    (record : Record) :
    ∃ written, (greylistUpdate mailspec envrcpt received record).write = some written ∧
      written.created = record.created ∧ written.updated = received ∧
      written.connections = (if (greylistTupleCounted mailspec connectionCounted envrcpt).1 = 0
        then record.connections + 1 else record.connections) ∧
      written.deadline = record.deadline ∧ written.delay = record.delay ∧
      written.attempts = record.attempts ∧ written.visa = record.visa ∧
      ((greylistUpdate mailspec envrcpt received record).result = 0 ∧
          record.delay < toInt (received - record.created) ∧
          record.attempts < written.connections ∧
          written.expire = received + record.visa ∧
          (written.passed = record.passed ∨ written.passed = record.passed + 1) ∨
        (greylistUpdate mailspec envrcpt received record).result = 1 ∧
          ¬ (record.delay < toInt (received - record.created) ∧
            record.attempts < written.connections) ∧
          written.expire = record.created + record.deadline ∧ written.passed = 0) := by
  generalize counted : greylistTupleCounted mailspec connectionCounted envrcpt = pair
  obtain ⟨n, afterConnection⟩ := pair
  generalize raised : (if n = 0 then record.connections + 1 else record.connections) = connections
  by_cases passes : toInt (received - record.created) > record.delay ∧ connections > record.attempts
  · generalize countedPassed : greylistTupleCounted afterConnection passedCounted envrcpt = pair
    obtain ⟨m, afterPassed⟩ := pair
    have shape : greylistUpdate mailspec envrcpt received record =
        ⟨0, if (if m = 0 then record.passed + 1 else record.passed) = 1
            then toInt (received - record.created) else 0,
          some { record with
            connections, passed := if m = 0 then record.passed + 1 else record.passed,
            expire := received + record.visa, updated := received },
          afterPassed⟩ := by
      simp only [greylistUpdate, counted, raised, if_pos passes, countedPassed]
    rw [shape]
    refine ⟨_, rfl, rfl, rfl, rfl, rfl, rfl, rfl, rfl, .inl ⟨rfl, passes.1, passes.2, rfl, ?_⟩⟩
    by_cases first : m = 0
    · exact .inr (by simp [first])
    · exact .inl (by simp [first])
  · have shape : greylistUpdate mailspec envrcpt received record =
        ⟨1, 0,
          some { record with
            connections, passed := 0, expire := record.created + record.deadline,
            updated := received },
          afterConnection⟩ := by
      simp only [greylistUpdate, counted, raised, if_neg passes]
    rw [shape]
    exact ⟨_, rfl, rfl, rfl, rfl, rfl, rfl, rfl, rfl, .inr ⟨rfl, passes, rfl, rfl⟩⟩

theorem commit_same (attempt : Attempt) (tuple : Tuple) (store : Store) :
    attempt.commit tuple store tuple =
      match attempt.write with
      | none => store tuple
      | some record => some record := by
  unfold Attempt.commit
  cases attempt.write <;> simp

theorem commit_other (attempt : Attempt) (tuple other : Tuple) (store : Store)
    (distinct : other ≠ tuple) : attempt.commit tuple store other = store other := by
  unfold Attempt.commit
  cases attempt.write <;> simp [distinct]

end Cases

end Mopher.Greylist
