import Mopher.Greylist.Visa

/-!
# Expired records and the janitor

Expiry is decided twice: lazily by `greylist_recipient`, and by the janitor,
whose walk deletes every record that `dbt_common_validate` finds expired.  A run
in which the janitor works at arbitrary points is compared with the same run
without it.

The two lookups differ for the empty rule only: a missing record then means
that the tuple is not greylisted, while an expired one is created anew.
-/

set_option autoImplicit false

namespace Mopher.Greylist

/-- `dbt_common_validate` of `dbt.c`, with `dbt_cleanup_schedule` as clock. -/
def dbtCommonValidate (schedule : Int) (record : Record) : Int :=
  if schedule > record.expire then 0 else 1

/-- Effect of `dbt_janitor_cleanup_walk` on the table. -/
def dbtJanitorCleanupWalk (schedule : Int) (store : Store) : Store :=
  fun tuple =>
    match store tuple with
    | none => none
    | some record => if dbtCommonValidate schedule record = 0 then none else some record

inductive Event (E : Type) where
  | attempt (tuple : Tuple) (call : Call E)
  | cleanup (schedule : Int)

def Event.time {E : Type} : Event E → Int
  | .attempt _ call => call.received
  | .cleanup schedule => schedule

def Event.isAttempt {E : Type} : Event E → Bool
  | .attempt _ _ => true
  | .cleanup _ => false

section Janitor
variable {E : Type} (cf : Config) (eval : E → Table → Option Int)

def eventStep (world : World) : Event E → World
  | .attempt tuple call => step cf eval tuple world call
  | .cleanup schedule => { world with store := dbtJanitorCleanupWalk schedule world.store }

/-- The verdicts of the attempts of a run, in order. -/
def verdicts (world : World) : List (Event E) → List Int
  | [] => []
  | .attempt tuple call :: rest =>
      (perform cf eval tuple world call).result ::
        verdicts (eventStep cf eval world (.attempt tuple call)) rest
  | .cleanup schedule :: rest => verdicts (eventStep cf eval world (.cleanup schedule)) rest

def Expired (received : Int) (record : Option Record) : Prop :=
  ∃ r, record = some r ∧ r.expire < received

/-- A call that meets an expired record has a rule that sets something, and
its expressions evaluate. -/
def RenewsExpired (world : World) (tuple : Tuple) (call : Call E) : Prop :=
  Expired call.received (world.store tuple) →
    call.gl.isEmpty = false ∧ call.gl.Evaluates eval (world.mailspec call.connection)

/-- Every attempt of the run without janitor meets the condition. -/
def AllRenewExpired (world : World) : List (Event E) → Prop
  | [] => True
  | .attempt tuple call :: rest =>
      RenewsExpired eval world tuple call ∧
        AllRenewExpired (eventStep cf eval world (.attempt tuple call)) rest
  | .cleanup _ :: rest => AllRenewExpired world rest

/-- The cleaned table has the same record, or none where it is expired. -/
def Behind (now : Int) (cleaned kept : Option Record) : Prop :=
  cleaned = kept ∨ cleaned = none ∧ Expired now kept

theorem behind_later {now later : Int} {cleaned kept : Option Record}
    (behind : Behind now cleaned kept) (ordered : now ≤ later) : Behind later cleaned kept := by
  rcases behind with same | ⟨absent, record, found, expired⟩
  · exact .inl same
  · exact .inr ⟨absent, record, found, by omega⟩

theorem cleanup_behind {now schedule : Int} {cleaned kept : Store} (tuple : Tuple)
    (behind : Behind now (cleaned tuple) (kept tuple)) (ordered : now ≤ schedule) :
    Behind schedule (dbtJanitorCleanupWalk schedule cleaned tuple) (kept tuple) := by
  rcases behind_later behind ordered with same | ⟨absent, expired⟩
  · cases found : kept tuple with
    | none =>
        rw [found] at same
        exact .inl (by simp [dbtJanitorCleanupWalk, same])
    | some record =>
        rw [found] at same
        by_cases late : record.expire < schedule
        · exact .inr ⟨by simp [dbtJanitorCleanupWalk, same, dbtCommonValidate, late],
            record, rfl, late⟩
        · exact .inl (by simp [dbtJanitorCleanupWalk, same, dbtCommonValidate, late])
  · exact .inr ⟨by simp [dbtJanitorCleanupWalk, absent], expired⟩

theorem attempt_on_expired (gl : GreylistRule E) (mailspec : Table) (envrcpt : Bytes)
    {received : Int} {record : Option Record} (expired : Expired received record) :
    greylistAttempt cf eval gl mailspec envrcpt received record =
      greylistAdd cf eval gl mailspec received := by
  obtain ⟨r, rfl, late⟩ := expired
  simp [greylistAttempt, late]

theorem attempt_on_missing {gl : GreylistRule E} {mailspec : Table} {envrcpt : Bytes}
    {received : Int} (nonempty : gl.isEmpty = false) :
    greylistAttempt cf eval gl mailspec envrcpt received none =
      greylistAdd cf eval gl mailspec received := by
  simp [greylistAttempt, nonempty]

theorem greylistAdd_evaluates {gl : GreylistRule E} {mailspec : Table} (received : Int)
    (evaluates : gl.Evaluates eval mailspec) :
    ∃ record, greylistAdd cf eval gl mailspec received = ⟨1, 0, some record, mailspec⟩ := by
  rcases greylistAdd_cases cf eval gl mailspec received with ⟨failed, -⟩ | ⟨record, shape, -⟩
  · obtain ⟨result, run⟩ := greylistProperties_evaluates eval (newRecord received) evaluates
    rw [failed] at run
    cases run
  · exact ⟨record, shape⟩

/-- One attempt, on a record and on what the janitor may have left of it. -/
theorem attempt_behind {gl : GreylistRule E} {mailspec : Table} (envrcpt : Bytes)
    {received : Int} {cleaned kept : Option Record}
    (behind : Behind received cleaned kept)
    (renews : Expired received kept → gl.isEmpty = false ∧ gl.Evaluates eval mailspec) :
    greylistAttempt cf eval gl mailspec envrcpt received cleaned =
        greylistAttempt cf eval gl mailspec envrcpt received kept ∧
      (cleaned = kept ∨
        ∃ record, (greylistAttempt cf eval gl mailspec envrcpt received kept).write =
          some record) := by
  rcases behind with same | ⟨absent, expired⟩
  · exact ⟨by rw [same], .inl same⟩
  · obtain ⟨nonempty, evaluates⟩ := renews expired
    obtain ⟨record, added⟩ := greylistAdd_evaluates cf eval received evaluates
    rw [absent, attempt_on_expired cf eval _ _ _ expired, attempt_on_missing cf eval nonempty]
    exact ⟨rfl, .inr ⟨record, by rw [added]⟩⟩

theorem step_behind {cleaned kept : World} {now : Int} (tuple : Tuple) (call : Call E)
    (sameMailspec : cleaned.mailspec = kept.mailspec)
    (behind : ∀ other, Behind now (cleaned.store other) (kept.store other))
    (ordered : now ≤ call.received) (renews : RenewsExpired eval kept tuple call) :
    (perform cf eval tuple cleaned call).result = (perform cf eval tuple kept call).result ∧
      (step cf eval tuple cleaned call).mailspec = (step cf eval tuple kept call).mailspec ∧
      ∀ other, Behind call.received ((step cf eval tuple cleaned call).store other)
        ((step cf eval tuple kept call).store other) := by
  have here := behind_later (behind tuple) ordered
  obtain ⟨sameAttempt, sameRecord⟩ := attempt_behind cf eval tuple.envrcpt here renews
  refine ⟨?_, ?_, ?_⟩
  · rw [perform_result, perform_result, sameMailspec, sameAttempt]
  · simp only [step, perform, greylistRecipient, sameMailspec, sameAttempt]
  · intro other
    by_cases same : other = tuple
    · subst same
      rw [step_store, step_store, sameMailspec, sameAttempt]
      rcases sameRecord with equal | ⟨record, write⟩
      · rw [equal]
        exact .inl rfl
      · rw [write]
        exact .inl rfl
    · have cleanedOther : (step cf eval tuple cleaned call).store other = cleaned.store other :=
        commit_other _ tuple other cleaned.store same
      have keptOther : (step cf eval tuple kept call).store other = kept.store other :=
        commit_other _ tuple other kept.store same
      rw [cleanedOther, keptOther]
      exact behind_later (behind other) ordered

theorem verdicts_behind (events : List (Event E)) :
    ∀ (cleaned kept : World) (now : Int), cleaned.mailspec = kept.mailspec →
      (∀ other, Behind now (cleaned.store other) (kept.store other)) →
      (now :: events.map Event.time).Pairwise (· ≤ ·) →
      AllRenewExpired cf eval kept events →
      verdicts cf eval cleaned events =
        verdicts cf eval kept (events.filter Event.isAttempt) := by
  induction events with
  | nil => intro cleaned kept now _ _ _ _; rfl
  | cons event rest ih =>
      intro cleaned kept now sameMailspec behind ordered renews
      rw [List.map_cons, List.pairwise_cons] at ordered
      have notEarlier : now ≤ event.time := ordered.1 _ (by simp)
      cases event with
      | attempt tuple call =>
          obtain ⟨renewsHere, renewsRest⟩ := renews
          obtain ⟨sameResult, nextMailspec, nextBehind⟩ :=
            step_behind cf eval tuple call sameMailspec behind notEarlier renewsHere
          have tail := ih (eventStep cf eval cleaned (.attempt tuple call))
            (eventStep cf eval kept (.attempt tuple call)) call.received nextMailspec nextBehind
            ordered.2 renewsRest
          rw [List.filter_cons_of_pos (by rfl)]
          simp only [verdicts, sameResult, tail]
      | cleanup schedule =>
          have nextBehind : ∀ other, Behind schedule
              (dbtJanitorCleanupWalk schedule cleaned.store other) (kept.store other) := by
            intro other
            exact cleanup_behind other (behind other) notEarlier
          simp only [verdicts, List.filter_cons, Event.isAttempt]
          exact ih (eventStep cf eval cleaned (.cleanup schedule)) kept schedule sameMailspec
            nextBehind ordered.2 renews

/-- On one expired record: same verdict and same record left behind as without it. -/
def SameWithoutExpired (gl : GreylistRule E) (store : Store) (mailspec : Table)
    (tuple : Tuple) (received : Int) : Prop :=
  let withExpired := greylistRecipient cf eval gl store mailspec tuple received
  let without := greylistRecipient cf eval gl (Function.update store tuple none) mailspec tuple
    received
  withExpired.result = without.result ∧ withExpired.store tuple = without.store tuple

theorem sameWithoutExpired_iff (gl : GreylistRule E) (store : Store) (mailspec : Table)
    (tuple : Tuple) (received : Int) (expired : Expired received (store tuple)) :
    SameWithoutExpired cf eval gl store mailspec tuple received ↔
      gl.isEmpty = false ∧ gl.Evaluates eval mailspec := by
  have kept := attempt_on_expired cf eval gl mailspec tuple.envrcpt expired
  simp only [SameWithoutExpired, greylistRecipient, commit_same, Function.update_self, kept]
  constructor
  · rintro ⟨sameResult, sameRecord⟩
    have nonempty : gl.isEmpty = false := by
      by_contra empty
      have empty : gl.isEmpty = true := by simpa using empty
      rcases greylistAdd_cases cf eval gl mailspec received with ⟨-, shape⟩ | ⟨record, shape, -⟩ <;>
        simp [shape, greylistAttempt, empty] at sameResult
    refine ⟨nonempty, ?_⟩
    rw [attempt_on_missing cf eval nonempty] at sameRecord
    intro exp member e set
    by_contra fails
    obtain ⟨record, found, -⟩ := expired
    have failed : greylistProperties eval gl mailspec (newRecord received) = none := by
      have noValue : eval e mailspec = none := by simpa using fails
      simp only [List.mem_cons, List.not_mem_nil, or_false] at member
      rw [Option.mem_def] at set
      rcases member with rfl | rfl | rfl | rfl <;>
        simp [greylistProperties, greylistProperty, set, noValue]
    simp [greylistAdd, failed, found] at sameRecord
  · rintro ⟨nonempty, evaluates⟩
    obtain ⟨record, added⟩ := greylistAdd_evaluates cf eval received evaluates
    rw [attempt_on_missing cf eval nonempty, added]
    exact ⟨rfl, rfl⟩

/-- The janitor makes no difference to a call exactly when the rule is not
empty and evaluates; runs of such calls have the same verdicts whenever, and
whether, expired records are removed. -/
theorem janitor_makes_no_difference_iff :
    (∀ (gl : GreylistRule E) (store : Store) (mailspec : Table) (tuple : Tuple) (received : Int),
      Expired received (store tuple) →
      (SameWithoutExpired cf eval gl store mailspec tuple received ↔
        gl.isEmpty = false ∧ gl.Evaluates eval mailspec)) ∧
    (∀ (world : World) (events : List (Event E)),
      (events.map Event.time).Pairwise (· ≤ ·) →
      AllRenewExpired cf eval world events →
      verdicts cf eval world events =
        verdicts cf eval world (events.filter Event.isAttempt)) := by
  refine ⟨sameWithoutExpired_iff cf eval, ?_⟩
  intro world events ordered renews
  cases events with
  | nil => rfl
  | cons event rest =>
      refine verdicts_behind cf eval (event :: rest) world world event.time rfl
        (fun _ => .inl rfl) ?_ renews
      rw [List.pairwise_cons]
      refine ⟨?_, ordered⟩
      intro time member
      rw [List.map_cons, List.mem_cons] at member
      rcases member with rfl | later
      · exact le_refl _
      · rw [List.map_cons, List.pairwise_cons] at ordered
        exact ordered.1 time later

end Janitor

/-! The empty rule at 100000 meets the visa of the sample tuple, expired at 86600. -/

theorem empty_rule_sees_the_janitor :
    ¬ SameWithoutExpired sampleConfig literalEval emptyRule
        (Function.update (fun _ => none) sampleTuple (some passedRecord)) (fun _ => none)
        sampleTuple 100000 ∧
      Expired 100000 (Function.update (fun _ => none) sampleTuple (some passedRecord)
        sampleTuple) := by
  refine ⟨?_, passedRecord, by simp, by decide⟩
  rintro ⟨sameResult, -⟩
  revert sameResult
  decide

theorem janitor_harmless_for_delay_rule :
    SameWithoutExpired sampleConfig literalEval delayRule
      (Function.update (fun _ => none) sampleTuple (some passedRecord)) (fun _ => none)
      sampleTuple 100000 := by
  refine ((janitor_makes_no_difference_iff sampleConfig literalEval).1 _ _ _ _ _
    ⟨passedRecord, by simp, by decide⟩).mpr ⟨by decide, ?_⟩
  intro exp member e set
  rfl

end Mopher.Greylist
