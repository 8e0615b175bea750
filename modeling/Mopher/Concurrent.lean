import Mopher.Lib.ReadModifyWrite
import Mopher.Counter
import Mopher.Greylist.Connection

/-!
# Concurrent updates of one record

`greylist_recipient` and `counter_update_record` read a record with
`dbt_db_get`, change it in memory and write all of it back with `dbt_db_set`.
Each of the two calls holds the lock of the table, nothing holds it across
both.  Milter threads that update the same record are the threads of
`ReadModifyWrite`, and what their counters lose is settled there.
-/

set_option autoImplicit false

namespace Mopher

/-- Every call counts one accepted message. -/
def counterCell (cf : CounterConfig) :
    ReadModifyWrite.Counter (Option CounterRecord) Unit Int where
  compute received _ record := (some (some (counterUpdateRecord cf received record)), ())
  count := CounterRecord.stored
  seen _ _ n := n
  credit _ _ _ := 1
  adds := by
    intro received _ record written writes
    cases Option.some.inj writes
    exact counterUpdateRecord_count cf received record

namespace Greylist

/-- What a thread brings to a call: its rule, the other symbols of its mailspec
and the time it was received. -/
structure ThreadCall (E : Type) where
  gl : GreylistRule E
  symbols : Table
  received : Int

def storedConnections : Option Record → Int
  | none => 0
  | some record => record.connections

/-- A record that is expired for the call counts from zero. -/
def liveConnections (received : Int) (record : Option Record) (connections : Int) : Int :=
  match record with
  | none => 0
  | some r => if r.expire < received then 0 else connections

/-- Whether the connection is counted by the call: always on a new record, once
for a recipient on a live one. -/
def countedCredit (mailspec : Table) (envrcpt : Bytes) (received : Int) (record : Option Record) :
    Int :=
  match record with
  | none => 1
  | some r =>
      if r.expire < received then 1
      else if (greylistTupleCounted mailspec connectionCounted envrcpt).1 = 0 then 1
      else 0

section Cell
variable {E : Type} (cf : Config) (eval : E → Table → Option Int)

theorem greylistAttempt_adds (gl : GreylistRule E) (mailspec : Table) (envrcpt : Bytes)
    (received : Int) (record : Option Record) (written : Record)
    (writes : (greylistAttempt cf eval gl mailspec envrcpt received record).write = some written) :
    written.connections =
      liveConnections received record (storedConnections record) +
        countedCredit mailspec envrcpt received record := by
  rcases greylistAttempt_cases cf eval gl mailspec envrcpt received record with
    ⟨-, -, shape⟩ | ⟨notLive, -, shape⟩ | ⟨r, -, -, -, shape⟩ | ⟨r, updated, rfl, live, run, shape⟩
  · rw [shape] at writes
    cases writes
  · rw [shape] at writes
    rcases greylistAdd_cases cf eval gl mailspec received with
      ⟨-, added⟩ | ⟨created, added, -, connections, -⟩
    · rw [added] at writes
      cases writes
    · rw [added] at writes
      cases Option.some.inj writes
      cases record with
      | none => simp [liveConnections, countedCredit, connections]
      | some r =>
          have late : r.expire < received := by
            by_contra early
            exact notLive ⟨r, rfl, by omega⟩
          simp [liveConnections, countedCredit, late, connections]
  · rw [shape] at writes
    cases writes
  · have early : ¬ r.expire < received := by omega
    obtain ⟨result, write, -, -, counter, -⟩ :=
      greylistUpdate_write mailspec envrcpt received updated
    obtain ⟨-, same, -⟩ := greylistProperties_keeps eval run
    rw [shape, write] at writes
    cases Option.some.inj writes
    rw [counter, same]
    simp only [liveConnections, countedCredit, storedConnections, if_neg early]
    split <;> omega

/-- Calls of `greylist_recipient` on one tuple, one mailspec a thread. -/
def greylistCell (envrcpt : Bytes) :
    ReadModifyWrite.Counter (Option Record) Table (ThreadCall E) where
  compute call own record :=
    let attempt := greylistAttempt cf eval call.gl (atAction own call.symbols) envrcpt
      call.received record
    (attempt.write.map some, attempt.mailspec)
  count := storedConnections
  seen call record connections := liveConnections call.received record connections
  credit call own record :=
    countedCredit (atAction own call.symbols) envrcpt call.received record
  adds := by
    intro call own record written writes
    obtain ⟨result, write, rfl⟩ := Option.map_eq_some_iff.mp writes
    exact greylistAttempt_adds cf eval call.gl _ envrcpt call.received record result write

end Cell

end Greylist

open ReadModifyWrite

/-- Number of calls of `counter_update_record` that are complete. -/
def completedUpdates : List (ReadModifyWrite.Step Int) → Nat
  | [] => 0
  | .get _ _ :: rest => completedUpdates rest
  | .set _ :: rest => completedUpdates rest + 1

theorem counterCell_tally (cf : CounterConfig) (schedule : List (ReadModifyWrite.Step Int)) :
    ∀ s next, run (counterCell cf) s schedule = some next →
      next.tally = s.tally + completedUpdates schedule := by
  induction schedule with
  | nil =>
      intro s next reached
      cases Option.some.inj reached
      simp [completedUpdates]
  | cons first rest ih =>
      intro s next reached
      obtain ⟨middle, success, reachedRest⟩ := Option.bind_eq_some_iff.mp reached
      have tail := ih middle next reachedRest
      cases first with
      | get t received =>
          obtain ⟨-, -, -, -, same⟩ := step_get _ success
          rw [tail, same, completedUpdates]
      | set t =>
          obtain ⟨received, read, -, -, -, ⟨silent, -, -⟩ | ⟨written, -, -, raised⟩⟩ :=
            step_set _ success
          · cases silent
          · have one : middle.tally = s.tally + 1 := raised
            rw [tail, one, completedUpdates]
            push_cast
            omega

/-- The counters are right in every state of a run exactly when every
`dbt_db_set` stores a record made from the counter that is in the store; they
are if no other thread writes the record between the `dbt_db_get` and the
`dbt_db_set` of a call. -/
theorem no_update_lost_iff {E : Type} (cf : Greylist.Config) (eval : E → Table → Option Int)
    (counterCf : CounterConfig) :
    (∀ (envrcpt : Bytes) (record : Option Greylist.Record) (mailspec : Nat → Table)
      (schedule : List (ReadModifyWrite.Step (Greylist.ThreadCall E))),
      (CountsAll (Greylist.greylistCell cf eval envrcpt)
          (start (Greylist.greylistCell cf eval envrcpt) record mailspec) schedule ↔
        AllCurrent (Greylist.greylistCell cf eval envrcpt)
          (start (Greylist.greylistCell cf eval envrcpt) record mailspec) schedule) ∧
      (NoneOvertaken (Greylist.greylistCell cf eval envrcpt)
          (start (Greylist.greylistCell cf eval envrcpt) record mailspec) schedule →
        CountsAll (Greylist.greylistCell cf eval envrcpt)
          (start (Greylist.greylistCell cf eval envrcpt) record mailspec) schedule)) ∧
    (∀ (record : Option CounterRecord) (schedule : List (ReadModifyWrite.Step Int)),
      (CountsAll (counterCell counterCf) (start (counterCell counterCf) record fun _ => ())
          schedule ↔
        AllCurrent (counterCell counterCf) (start (counterCell counterCf) record fun _ => ())
          schedule) ∧
      (NoneOvertaken (counterCell counterCf) (start (counterCell counterCf) record fun _ => ())
          schedule →
        ∀ final, run (counterCell counterCf) (start (counterCell counterCf) record fun _ => ())
            schedule = some final →
          CounterRecord.stored final.cell =
            CounterRecord.stored record + completedUpdates schedule)) := by
  refine ⟨fun envrcpt => counts_from_start (Greylist.greylistCell cf eval envrcpt), ?_⟩
  intro record schedule
  obtain ⟨exactly, enough⟩ := counts_from_start (counterCell counterCf) record (fun _ => ()) schedule
  refine ⟨exactly, ?_⟩
  intro quiet final reached
  have right := enough quiet schedule [] final (by simp) reached
  have tally := counterCell_tally counterCf schedule _ final reached
  rw [tally] at right
  exact right

/-! Two threads read the same record before either of them writes it. -/

def sampleCounterConfig : CounterConfig := ⟨5, 3600, 86400⟩

def contact : Greylist.ThreadCall Int := ⟨Greylist.delayRule, fun _ => none, 1000⟩

theorem two_threads_lose_one_update :
    ¬ CountsAll
      (Greylist.greylistCell Greylist.sampleConfig Greylist.literalEval (cstr "b@example.org"))
      (start (Greylist.greylistCell Greylist.sampleConfig Greylist.literalEval
        (cstr "b@example.org")) (some Greylist.liveRecord) fun _ _ => none)
      [.get 0 contact, .get 1 contact, .set 0, .set 1] ∧
    ¬ CountsAll (counterCell sampleCounterConfig)
      (start (counterCell sampleCounterConfig) none fun _ => ())
      [.get 0 1000, .get 1 1000, .set 0, .set 1] := by
  constructor
  · intro counts
    have right := counts [.get 0 contact, .get 1 contact, .set 0, .set 1] [] _ rfl rfl
    revert right
    decide +kernel
  · intro counts
    have right := counts [.get 0 1000, .get 1 1000, .set 0, .set 1] [] _ rfl rfl
    revert right
    decide +kernel

/-- One thread after the other: both messages are counted. -/
theorem threads_in_turn_lose_nothing :
    ∃ final, run (counterCell sampleCounterConfig)
        (start (counterCell sampleCounterConfig) none fun _ => ())
        [.get 0 1000, .set 0, .get 1 1000, .set 1] = some final ∧
      CounterRecord.stored final.cell = 2 := by
  refine ⟨_, rfl, ?_⟩
  refine ((no_update_lost_iff Greylist.sampleConfig Greylist.literalEval
    sampleCounterConfig).2 none [.get 0 1000, .set 0, .get 1 1000, .set 1]).2 ?_ _ rfl
  intro earlier t o between later split absent front u back s inside _
  subst inside
  rcases earlier with _ | ⟨a, _ | ⟨b, _ | ⟨c, _ | ⟨d, rest⟩⟩⟩⟩
  · cases front <;> simp at split absent <;> grind
  · simp at split
  · cases front <;> simp at split absent
  · simp at split
  · simp at split

end Mopher
