import Mopher.Greylist.Admission

/-!
# A visa stays valid while it is used

Once a tuple has passed, attempts that come before the visa runs out and do not
change delay and attempts keep passing: the verdict is recomputed from scratch
each time, but from a creation time that stays, a counter that never falls and
a clock that only advances.
-/

set_option autoImplicit false

namespace Mopher.Greylist

section Visa
variable {E : Type} (cf : Config) (eval : E → Table → Option Int) (tuple : Tuple)

/-- The rule evaluates, and where it sets delay or attempts it sets them to the
values of `terms`; the empty rule qualifies. -/
def SameTerms (terms : Record) (gl : GreylistRule E) (mailspec : Table) : Prop :=
  gl.Evaluates eval mailspec ∧
    (∀ e ∈ gl.glDelay, eval e mailspec = some terms.delay) ∧
    (∀ e ∈ gl.glAttempts, eval e mailspec = some terms.attempts)

/-- Every call comes no later than the stored visa allows after the one before. -/
def PromptRun (terms : Record) : World → Int → List (Call E) → Prop
  | _, _, [] => True
  | world, last, call :: rest =>
      (last ≤ call.received ∧ call.received ≤ 2 ^ 31 - 1 ∧
        (∀ record, world.store tuple = some record → call.received ≤ last + record.visa) ∧
        SameTerms eval terms call.gl (world.mailspec call.connection)) ∧
      PromptRun terms (step cf eval tuple world call) call.received rest

/-- The call passes, renews the visa and loses nothing. -/
def Renews (world : World) (call : Call E) : Prop :=
  (perform cf eval tuple world call).result = 0 ∧
    ∃ before after, world.store tuple = some before ∧
      (step cf eval tuple world call).store tuple = some after ∧
      after.expire = call.received + after.visa ∧
      after.created = before.created ∧
      before.connections ≤ after.connections ∧ before.passed ≤ after.passed

def AllRenew : World → List (Call E) → Prop
  | _, [] => True
  | world, call :: rest =>
      Renews cf eval tuple world call ∧ AllRenew (step cf eval tuple world call) rest

/-- The stored record is a visa under `terms`, last used at `last`. -/
def HoldsVisa (terms : Record) (world : World) (last : Int) : Prop :=
  ∃ record, world.store tuple = some record ∧ record.created = terms.created ∧
    record.delay = terms.delay ∧ record.attempts = terms.attempts ∧
    record.expire = last + record.visa ∧
    record.delay < last - record.created ∧ record.attempts < record.connections

theorem greylistProperty_same {exp : Option E} {mailspec : Table} {value target updated : Int}
    (fixed : ∀ e ∈ exp, eval e mailspec = some target) (stored : value = target)
    (effect : greylistProperty eval exp mailspec value = some updated) : updated = target := by
  cases exp with
  | none => exact (Option.some.inj effect).symm.trans stored
  | some e =>
      rw [greylistProperty, fixed e rfl] at effect
      exact (Option.some.inj effect).symm

/-- One prompt attempt renews the visa. -/
theorem prompt_call_renews {terms : Record} {world : World} {last : Int} {call : Call E}
    (visa : HoldsVisa tuple terms world last) (createdRange : 0 ≤ terms.created)
    (createdBound : terms.created ≤ 2 ^ 31 - 1) (lastNonneg : 0 ≤ last)
    (ordered : last ≤ call.received) (bounded : call.received ≤ 2 ^ 31 - 1)
    (prompt : ∀ record, world.store tuple = some record → call.received ≤ last + record.visa)
    (same : SameTerms eval terms call.gl (world.mailspec call.connection)) :
    Renews cf eval tuple world call ∧
      HoldsVisa tuple terms (step cf eval tuple world call) call.received := by
  obtain ⟨record, stored, created, delay, attempts, expire, waited, enough⟩ := visa
  have live : call.received ≤ record.expire := expire ▸ prompt record stored
  obtain ⟨evaluates, sameDelay, sameAttempts⟩ := same
  rcases step_cases cf eval tuple world call with
    ⟨absent, -⟩ | ⟨dead, -⟩ | ⟨-, -, fails⟩ |
      ⟨before, updated, after, found, -, properties, shape, stepped, write⟩
  · rw [stored] at absent
    cases absent
  · exact absurd ⟨record, stored, live⟩ dead
  · exact absurd evaluates fails
  · cases Option.some.inj (stored.symm.trans found)
    obtain ⟨keptCreated, keptConnections, keptPassed⟩ := greylistProperties_keeps eval properties
    obtain ⟨-, delayEffect, attemptsEffect, -⟩ := greylistProperties_effect eval properties
    have delayNow := greylistProperty_same eval sameDelay delay delayEffect
    have attemptsNow := greylistProperty_same eval sameAttempts attempts attemptsEffect
    obtain ⟨written, writtenShape, writtenCreated, -, connections, -, writtenDelay,
      writtenAttempts, writtenVisa, verdict⟩ := greylistUpdate_write
        (world.mailspec call.connection) tuple.envrcpt call.received updated
    cases Option.some.inj (write.symm.trans writtenShape)
    have notFewer : record.connections ≤ after.connections := by
      rw [connections, keptConnections]
      split <;> omega
    have difference : toInt (call.received - updated.created) =
        call.received - record.created := by
      rw [toInt_of_bounds _ (by omega) (by omega), keptCreated]
    rcases verdict with ⟨passes, -, -, renewed, passed⟩ | ⟨-, fails, -⟩
    · refine ⟨⟨?_, record, after, stored, stepped, by omega, by omega, notFewer, by omega⟩, ?_⟩
      · rw [perform_result, ← shape]
        exact passes
      · exact ⟨after, stepped, by omega, by omega, by omega, by omega, by omega, by omega⟩
    · exact absurd ⟨by omega, by omega⟩ fails

theorem prompt_run_renews {terms : Record} (createdRange : 0 ≤ terms.created)
    (createdBound : terms.created ≤ 2 ^ 31 - 1) (calls : List (Call E)) :
    ∀ (world : World) (last : Int), HoldsVisa tuple terms world last → 0 ≤ last →
      PromptRun cf eval tuple terms world last calls →
      AllRenew cf eval tuple world calls := by
  induction calls with
  | nil => intro world last _ _ _; trivial
  | cons call rest ih =>
      intro world last visa lastNonneg promptRun
      obtain ⟨⟨ordered, bounded, prompt, same⟩, promptRest⟩ := promptRun
      obtain ⟨renews, next⟩ := prompt_call_renews cf eval tuple visa createdRange createdBound
        lastNonneg ordered bounded prompt same
      exact ⟨renews, ih _ _ next (by omega) promptRest⟩

/-- A call that passes and leaves a record leaves a visa. -/
theorem pass_holds_visa {world : World} {call : Call E} {terms : Record}
    (passes : (perform cf eval tuple world call).result = 0)
    (stored : (step cf eval tuple world call).store tuple = some terms)
    (createdRange : 0 ≤ terms.created) (createdBound : terms.created ≤ 2 ^ 31 - 1)
    (receivedRange : 0 ≤ call.received) (receivedBound : call.received ≤ 2 ^ 31 - 1) :
    HoldsVisa tuple terms (step cf eval tuple world call) call.received := by
  rcases step_cases cf eval tuple world call with
    ⟨-, -, absent, -⟩ | ⟨-, deferred, -⟩ | ⟨-, failed, -⟩ |
      ⟨before, updated, after, found, -, properties, shape, stepped, write⟩
  · rw [absent] at stored
    cases stored
  · omega
  · omega
  · cases Option.some.inj (stored.symm.trans stepped)
    obtain ⟨written, writtenShape, writtenCreated, -, -, -, writtenDelay, writtenAttempts,
      writtenVisa, verdict⟩ := greylistUpdate_write
        (world.mailspec call.connection) tuple.envrcpt call.received updated
    cases Option.some.inj (write.symm.trans writtenShape)
    rw [perform_result, ← shape] at passes
    rcases verdict with ⟨-, waited, enough, renewed, -⟩ | ⟨deferred, -⟩
    · rw [toInt_of_bounds _ (by omega) (by omega)] at waited
      exact ⟨terms, stepped, rfl, rfl, rfl, by omega, by omega, by omega⟩
    · omega

end Visa

/-! The tuple of the sample run has passed at 200; the empty rule at 300 renews. -/

def emptyRule : GreylistRule Int := ⟨none, none, none, none⟩

def contactedWorld : World :=
  run sampleConfig literalEval sampleTuple emptyWorld [⟨0, delayRule, 100⟩]

def passedRecord : Record :=
  { created := 100, updated := 200, expire := 86600, connections := 2, deadline := 3600,
    delay := 60, attempts := 0, visa := 86400, passed := 1 }

end Mopher.Greylist
