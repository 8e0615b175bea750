import Mopher.Greylist.Connection
import Mopher.Greylist.Visa

/-!
# A tuple passed by hand

`greylist_pass` of `greylist.c` lets a waiting tuple pass on its next attempt.  It
admits nothing itself: it sets creation time and counter such that the comparisons
of `greylist_recipient`, both of them strict, succeed on the next connection.  They
do, unless the waiting time, which `greylist_recipient` keeps in an `int`, wraps.
-/

set_option autoImplicit false

namespace Mopher.Greylist

/-- The record `greylist_pass` writes at time `now`. -/
def passByHand (now : Int) (record : Record) : Record :=
  { record with
    created := now - record.delay, connections := record.attempts,
    expire := now + record.visa, updated := now }

/-- `greylist_pass`: its return value and the store it leaves.  `getFails` and
`setFails` say whether `dbt_db_get` and `dbt_db_set` fail. -/
def greylistPass (getFails setFails : Bool) (store : Store) (tuple : Tuple) (now : Int) :
    Int × Store :=
  if getFails then (-1, store)
  else
    match store tuple with
    | none => (0, store)
    | some record =>
        if record.passed > 0 then (0, store)
        else if setFails then (-1, store)
        else (1, Function.update store tuple (some (passByHand now record)))

/-- `greylist_pass` passes a record that waits, or changes nothing. -/
theorem greylistPass_cases (getFails setFails : Bool) (store : Store) (tuple : Tuple) (now : Int) :
    (∃ record, getFails = false ∧ setFails = false ∧ store tuple = some record ∧
      record.passed ≤ 0 ∧ greylistPass getFails setFails store tuple now =
        (1, Function.update store tuple (some (passByHand now record)))) ∨
    (greylistPass getFails setFails store tuple now = (0, store) ∧
      ∀ record, store tuple = some record → 0 < record.passed) ∨
    (greylistPass getFails setFails store tuple now = (-1, store) ∧
      (getFails = true ∨ setFails = true)) := by
  cases getFails with
  | true => exact .inr (.inr ⟨rfl, .inl rfl⟩)
  | false =>
      cases found : store tuple with
      | none =>
          refine .inr (.inl ⟨by simp [greylistPass, found], ?_⟩)
          intro record stored
          cases stored
      | some record =>
          by_cases passed : record.passed > 0
          · refine .inr (.inl ⟨by simp [greylistPass, found, passed], ?_⟩)
            intro record' stored
            cases stored
            exact passed
          · cases setFails with
            | true => exact .inr (.inr ⟨by simp [greylistPass, found, passed], .inr rfl⟩)
            | false =>
                exact .inl ⟨record, rfl, rfl, rfl, by omega, by simp [greylistPass, found, passed]⟩

section ManualPass
variable {E : Type} (cf : Config) (eval : E → Table → Option Int)

/-- A connection that has not counted this recipient yet. -/
def NewConnection (mailspec : Table) (envrcpt : Bytes) : Prop :=
  mailspec connectionCounted = none ∨
    ∃ texts, mailspec connectionCounted = some (countedItems texts) ∧ envrcpt ∉ texts

theorem NewConnection.counts {mailspec : Table} {envrcpt : Bytes}
    (fresh : NewConnection mailspec envrcpt) :
    (greylistTupleCounted mailspec connectionCounted envrcpt).1 = 0 := by
  rcases fresh with unbound | ⟨texts, bound, absent⟩
  · simp [greylistTupleCounted, unbound]
  · rw [countedItems] at bound
    simp [greylistTupleCounted, bound, countedSearch_texts, absent]

/-- The wait that `greylist_recipient` computes exceeds the delay unless it wraps. -/
theorem wait_exceeds_iff {delay wait : Int} (later : 0 < wait) (bound : wait < 2 ^ 31) :
    delay < toInt (wait + delay) ↔ wait + delay < 2 ^ 31 := by
  rw [toInt, Int.bmod_def]
  split
  · omega
  · omega

/-- The next attempt after a manual pass, on any store that kept the tuple's record. -/
theorem attempt_after_pass {gl : GreylistRule E} {store : Store} {mailspec : Table} {tuple : Tuple}
    {record : Record} {now received : Int} (stored : store tuple = some (passByHand now record))
    (later : now < received) (visa : received ≤ now + record.visa)
    (nowRange : 0 ≤ now) (receivedRange : received ≤ 2 ^ 31 - 1)
    (same : SameTerms eval record gl mailspec) (fresh : NewConnection mailspec tuple.envrcpt) :
    (greylistRecipient cf eval gl store mailspec tuple received).result = 0 ↔
      received - now + record.delay < 2 ^ 31 := by
  obtain ⟨evaluates, sameDelay, sameAttempts⟩ := same
  have live : ¬ (passByHand now record).expire < received := by
    show ¬ now + record.visa < received
    omega
  obtain ⟨updated, properties⟩ := greylistProperties_evaluates eval (passByHand now record) evaluates
  have created : updated.created = now - record.delay :=
    (greylistProperties_keeps eval properties).1
  have connections : updated.connections = record.attempts :=
    (greylistProperties_keeps eval properties).2.1
  obtain ⟨-, delayEffect, attemptsEffect, -⟩ := greylistProperties_effect eval properties
  have delay : updated.delay = record.delay :=
    greylistProperty_same eval sameDelay rfl delayEffect
  have attempts : updated.attempts = record.attempts :=
    greylistProperty_same eval sameAttempts rfl attemptsEffect
  have shape : (greylistRecipient cf eval gl store mailspec tuple received).result =
      (greylistUpdate mailspec tuple.envrcpt received updated).result := by
    unfold greylistRecipient greylistAttempt
    simp only [stored, if_neg live, properties]
  obtain ⟨written, -, -, -, counter, -, -, -, -, verdict⟩ :=
    greylistUpdate_write mailspec tuple.envrcpt received updated
  rw [if_pos fresh.counts] at counter
  have wait : received - updated.created = received - now + record.delay := by omega
  rw [wait] at verdict
  have exceeds : record.delay < toInt (received - now + record.delay) ↔
      received - now + record.delay < 2 ^ 31 := wait_exceeds_iff (by omega) (by omega)
  rw [shape]
  rcases verdict with ⟨passes, waited, -⟩ | ⟨deferred, fails, -⟩
  · exact ⟨fun _ => exceeds.mp (by omega), fun _ => passes⟩
  · constructor
    · intro passes
      omega
    · intro fits
      have := exceeds.mpr fits
      exact absurd ⟨by omega, by omega⟩ fails

/-- What a manual pass at `now` promises about the next attempt at `received`: after
return value 1 it passes and other tuples are as before; else nothing has changed. -/
def PassTakesEffect (getFails setFails : Bool) (store : Store) (tuple : Tuple) (now : Int)
    (gl : GreylistRule E) (mailspec : Table) (received : Int) : Prop :=
  let pass := greylistPass getFails setFails store tuple now
  (pass.1 = 1 ∧
      (∀ store' : Store, store' tuple = pass.2 tuple →
        (greylistRecipient cf eval gl store' mailspec tuple received).result = 0) ∧
      ∀ other, other ≠ tuple → pass.2 other = store other) ∨
    ((pass.1 = 0 ∨ pass.1 = -1) ∧ pass.2 = store)

end ManualPass

def waitingRecord (delay : Int) : Record :=
  { newRecord 1000 with expire := 4600, deadline := 3600, delay, visa := 86400 }

/-- A store with one tuple that waits under this delay. -/
def waitingStore (delay : Int) : Store :=
  Function.update (fun _ => none) sampleTuple (some (waitingRecord delay))

end Mopher.Greylist
