import Mopher.Greylist.Recipient

/-!
# Runs of greylist attempts on one tuple

A run is a list of calls of `greylist_recipient` on one tuple, made by any
number of connections under any rules.  Each connection keeps its own mailspec;
all share the store.

The history invariant says what the stored record remembers of the run: which
call created it, that no later call found it expired, and how many calls were
counted on it.  An admission is then late enough, because the verdict is
computed from exactly these fields.
-/

set_option autoImplicit false

namespace Mopher.Greylist

structure World where
  store : Store
  mailspec : Nat → Table

/-- One call of `greylist_recipient`, made while `connection` is served. -/
structure Call (E : Type) where
  connection : Nat
  gl : GreylistRule E
  received : Int

section Run
variable {E : Type} (cf : Config) (eval : E → Table → Option Int) (tuple : Tuple)

def perform (world : World) (call : Call E) : Outcome :=
  greylistRecipient cf eval call.gl world.store (world.mailspec call.connection) tuple
    call.received

def step (world : World) (call : Call E) : World :=
  let outcome := perform cf eval tuple world call
  ⟨outcome.store, Function.update world.mailspec call.connection outcome.mailspec⟩

def run (world : World) (calls : List (Call E)) : World :=
  calls.foldl (step cf eval tuple) world

/-- The stored connection counter goes up by one with this call. -/
def raises (world : World) (call : Call E) : Bool :=
  match world.store tuple, (step cf eval tuple world call).store tuple with
  | some before, some after => after.connections = before.connections + 1
  | _, _ => false

def countedCalls (world : World) : List (Call E) → Nat
  | [] => 0
  | call :: rest =>
      (raises cf eval tuple world call).toNat +
        countedCalls (step cf eval tuple world call) rest

/-- The call finds no live record and stores a new one. -/
def Creates (world : World) (call : Call E) : Prop :=
  ¬ Unexpired call.received (world.store tuple) ∧
    (perform cf eval tuple world call).result = 1 ∧
    ∃ record, (step cf eval tuple world call).store tuple = some record ∧
      record.created = call.received ∧ record.connections = 1

/-- Every one of `calls` finds a live record, starting in `world`. -/
def AlwaysLive (world : World) (calls : List (Call E)) : Prop :=
  ∀ earlier call later, calls = earlier ++ call :: later →
    Unexpired call.received ((run cf eval tuple world earlier).store tuple)

theorem run_append (world : World) (first second : List (Call E)) :
    run cf eval tuple world (first ++ second) =
      run cf eval tuple (run cf eval tuple world first) second := by
  simp [run]

theorem run_snoc (world : World) (calls : List (Call E)) (call : Call E) :
    run cf eval tuple world (calls ++ [call]) =
      step cf eval tuple (run cf eval tuple world calls) call := by
  simp [run]

theorem countedCalls_snoc (calls : List (Call E)) (call : Call E) : ∀ world : World,
    countedCalls cf eval tuple world (calls ++ [call]) =
      countedCalls cf eval tuple world calls +
        (raises cf eval tuple (run cf eval tuple world calls) call).toNat := by
  induction calls with
  | nil => intro world; simp [countedCalls, run]
  | cons head rest ih =>
      intro world
      simp only [List.cons_append, countedCalls, ih]
      have same : run cf eval tuple (step cf eval tuple world head) rest =
          run cf eval tuple world (head :: rest) := by simp [run]
      rw [same]
      omega

theorem alwaysLive_nil (world : World) : AlwaysLive cf eval tuple world [] := by
  intro earlier call later split
  simp at split

theorem alwaysLive_snoc {world : World} {calls : List (Call E)} {call : Call E}
    (live : AlwaysLive cf eval tuple world calls)
    (last : Unexpired call.received ((run cf eval tuple world calls).store tuple)) :
    AlwaysLive cf eval tuple world (calls ++ [call]) := by
  intro earlier other later split
  rcases List.eq_nil_or_concat later with rfl | ⟨front, tail, rfl⟩
  · obtain ⟨rfl, same⟩ := List.append_inj' split rfl
    cases same
    exact last
  · have inner : calls ++ [call] = (earlier ++ other :: front) ++ [tail] := by simpa using split
    obtain ⟨rfl, -⟩ := List.append_inj' inner rfl
    exact live earlier other front rfl

/-! ## What one call does to the record of the tuple -/

theorem step_store (world : World) (call : Call E) :
    (step cf eval tuple world call).store tuple =
      match (greylistAttempt cf eval call.gl (world.mailspec call.connection) tuple.envrcpt
          call.received (world.store tuple)).write with
      | none => world.store tuple
      | some record => some record :=
  commit_same _ tuple world.store

theorem perform_result (world : World) (call : Call E) :
    (perform cf eval tuple world call).result =
      (greylistAttempt cf eval call.gl (world.mailspec call.connection) tuple.envrcpt
        call.received (world.store tuple)).result := rfl

/-- The four effects a call can have on the record: none at all, creation,
a failed call, and the update of a live record. -/
theorem step_cases (world : World) (call : Call E) :
    (world.store tuple = none ∧ call.gl.isEmpty = true ∧
      (step cf eval tuple world call).store tuple = none ∧
      (perform cf eval tuple world call).result = 0) ∨
    (Creates cf eval tuple world call) ∨
    ((step cf eval tuple world call).store tuple = world.store tuple ∧
      (perform cf eval tuple world call).result = -1 ∧
      ¬ call.gl.Evaluates eval (world.mailspec call.connection)) ∨
    (∃ before updated after, world.store tuple = some before ∧ call.received ≤ before.expire ∧
      greylistProperties eval call.gl (world.mailspec call.connection) before = some updated ∧
      greylistUpdate (world.mailspec call.connection) tuple.envrcpt call.received updated =
        greylistAttempt cf eval call.gl (world.mailspec call.connection) tuple.envrcpt
          call.received (world.store tuple) ∧
      (step cf eval tuple world call).store tuple = some after ∧
      (greylistUpdate (world.mailspec call.connection) tuple.envrcpt call.received
        updated).write = some after) := by
  have failing : ∀ record : Record,
      greylistProperties eval call.gl (world.mailspec call.connection) record = none →
        ¬ call.gl.Evaluates eval (world.mailspec call.connection) := by
    intro record failed evaluates
    obtain ⟨result, run⟩ := greylistProperties_evaluates eval record evaluates
    rw [failed] at run
    cases run
  have store := step_store cf eval tuple world call
  have result := perform_result cf eval tuple world call
  rcases greylistAttempt_cases cf eval call.gl (world.mailspec call.connection) tuple.envrcpt
      call.received (world.store tuple) with
    ⟨absent, empty, shape⟩ | ⟨dead, -, shape⟩ | ⟨r, found, live, failed, shape⟩ |
      ⟨r, updated, found, live, properties, shape⟩
  · rw [shape] at store result
    exact .inl ⟨absent, empty, store.trans absent, result⟩
  · rw [shape] at store result
    rcases greylistAdd_cases cf eval call.gl (world.mailspec call.connection) call.received with
      ⟨failed, added⟩ | ⟨record, added, created, connections, -⟩
    · rw [added] at store result
      exact .inr (.inr (.inl ⟨store, result, failing _ failed⟩))
    · rw [added] at store result
      exact .inr (.inl ⟨dead, result, record, store, created, connections⟩)
  · rw [shape] at store result
    exact .inr (.inr (.inl ⟨store, result, failing _ failed⟩))
  · obtain ⟨after, write, -⟩ := greylistUpdate_write (world.mailspec call.connection)
      tuple.envrcpt call.received updated
    rw [shape, write] at store
    exact .inr (.inr (.inr ⟨r, updated, after, found, live, properties, shape.symm, store, write⟩))

/-- A call on a live record keeps the creation time and counts at most once. -/
theorem update_counts {world : World} {call : Call E} {before updated after : Record}
    (found : world.store tuple = some before)
    (properties : greylistProperties eval call.gl (world.mailspec call.connection) before =
      some updated)
    (stored : (step cf eval tuple world call).store tuple = some after)
    (write : (greylistUpdate (world.mailspec call.connection) tuple.envrcpt call.received
      updated).write = some after) :
    after.created = before.created ∧
      after.connections =
        before.connections + (raises cf eval tuple world call).toNat := by
  obtain ⟨keptCreated, keptConnections, -⟩ := greylistProperties_keeps eval properties
  obtain ⟨written, shape, created, -, connections, -⟩ := greylistUpdate_write
    (world.mailspec call.connection) tuple.envrcpt call.received updated
  cases Option.some.inj (write.symm.trans shape)
  refine ⟨created.trans keptCreated, ?_⟩
  have raised : raises cf eval tuple world call =
      decide (after.connections = before.connections + 1) := by
    simp [raises, found, stored]
  rw [raised]
  rw [keptConnections] at connections
  split at connections
  · simp [connections]
  · simp [connections]

/-! ## The history invariant -/

/-- What the record of the tuple says about the run that led to it. -/
def History (start : World) (past : List (Call E)) (record : Record) : Prop :=
  ∃ older creator recent, past = older ++ creator :: recent ∧
    Creates cf eval tuple (run cf eval tuple start older) creator ∧
    record.created = creator.received ∧
    record.connections =
      1 + countedCalls cf eval tuple (run cf eval tuple start (older ++ [creator])) recent ∧
    ∀ now, (∀ call ∈ past, call.received ≤ now) → now ≤ record.expire →
      AlwaysLive cf eval tuple (run cf eval tuple start (older ++ [creator])) recent

theorem run_split (start : World) (older recent : List (Call E)) (creator : Call E) :
    run cf eval tuple (run cf eval tuple start (older ++ [creator])) recent =
      run cf eval tuple start (older ++ creator :: recent) := by
  rw [← run_append]
  simp

/-- Counting since the creator goes on from where the whole run stands. -/
theorem countedCalls_after {start : World} {past older recent : List (Call E)} {creator : Call E}
    (split : past = older ++ creator :: recent) (call : Call E) :
    countedCalls cf eval tuple (run cf eval tuple start (older ++ [creator])) (recent ++ [call]) =
      countedCalls cf eval tuple (run cf eval tuple start (older ++ [creator])) recent +
        (raises cf eval tuple (run cf eval tuple start past) call).toNat := by
  rw [countedCalls_snoc, run_split, ← split]

theorem alwaysLive_after {start : World} {past older recent : List (Call E)}
    {creator call : Call E} (split : past = older ++ creator :: recent)
    (live : AlwaysLive cf eval tuple (run cf eval tuple start (older ++ [creator])) recent)
    (last : Unexpired call.received ((run cf eval tuple start past).store tuple)) :
    AlwaysLive cf eval tuple (run cf eval tuple start (older ++ [creator]))
      (recent ++ [call]) := by
  refine alwaysLive_snoc cf eval tuple live ?_
  rw [run_split, ← split]
  exact last

theorem ordered_snoc {past : List (Call E)} {call : Call E}
    (ordered : ((past ++ [call]).map Call.received).Pairwise (· ≤ ·)) :
    (past.map Call.received).Pairwise (· ≤ ·) ∧ ∀ other ∈ past, other.received ≤ call.received := by
  rw [List.map_append, List.pairwise_append] at ordered
  obtain ⟨pastOrdered, -, before⟩ := ordered
  refine ⟨pastOrdered, ?_⟩
  intro other member
  exact before _ (List.mem_map_of_mem member) _ (by simp)

theorem history_of_run (start : World) (fresh : start.store tuple = none)
    (past : List (Call E)) :
    (past.map Call.received).Pairwise (· ≤ ·) →
    ∀ record, (run cf eval tuple start past).store tuple = some record →
      History cf eval tuple start past record := by
  induction past using List.reverseRecOn with
  | nil =>
      intro _ record stored
      simp [run, fresh] at stored
  | append_singleton past call ih =>
      intro ordered record stored
      obtain ⟨pastOrdered, notLater⟩ := ordered_snoc ordered
      rw [run_snoc] at stored
      rcases step_cases cf eval tuple (run cf eval tuple start past) call with
        ⟨-, -, absent, -⟩ | creates | ⟨unchanged, -, -⟩ |
          ⟨before, updated, after, found, live, properties, -, stepped, write⟩
      · rw [absent] at stored
        cases stored
      · -- the call is the creator itself
        obtain ⟨-, -, created, storedCreated, createdAt, connections⟩ := id creates
        cases Option.some.inj (stored.symm.trans storedCreated)
        refine ⟨past, call, [], rfl, creates, createdAt, by simp [countedCalls, connections], ?_⟩
        intro now _ _
        exact alwaysLive_nil cf eval tuple _
      · -- a failed call leaves the record; if it was expired it stays so
        rw [unchanged] at stored
        obtain ⟨older, creator, recent, split, creates, created, connections, liveAt⟩ :=
          ih pastOrdered record stored
        refine ⟨older, creator, recent ++ [call], by simp [split], creates, created, ?_, ?_⟩
        · have notRaised : raises cf eval tuple (run cf eval tuple start past) call = false := by
            simp [raises, unchanged, stored]
          rw [countedCalls_after cf eval tuple split, notRaised]
          simpa using connections
        · intro now notAfter notExpired
          have callBefore : call.received ≤ now := notAfter call (by simp)
          have recentLive := liveAt now (fun other member => notAfter other (by simp [member]))
            notExpired
          have stillLive : call.received ≤ record.expire := by omega
          exact alwaysLive_after cf eval tuple split recentLive ⟨record, stored, stillLive⟩
      · cases Option.some.inj (stored.symm.trans stepped)
        obtain ⟨older, creator, recent, split, creates, created, connections, liveAt⟩ :=
          ih pastOrdered before found
        obtain ⟨sameCreated, counted⟩ :=
          update_counts cf eval tuple found properties stepped write
        refine ⟨older, creator, recent ++ [call], by simp [split], creates,
          sameCreated.trans created, ?_, ?_⟩
        · rw [countedCalls_after cf eval tuple split, counted, connections]
          push_cast
          omega
        · intro now _ _
          have recentLive := liveAt call.received notLater live
          exact alwaysLive_after cf eval tuple split recentLive ⟨before, found, live⟩

/-! ## Admission -/

/-- Mail of a tuple is let through only after the delay and the number of
connections in effect, counted from the creation of a record that no call in
between found expired; the first contact under a rule is deferred. -/
theorem admission_is_late_enough (start : World) (fresh : start.store tuple = none)
    (past : List (Call E)) (call : Call E)
    (ordered : ((past ++ [call]).map Call.received).Pairwise (· ≤ ·))
    (range : ∀ other ∈ past ++ [call], 0 ≤ other.received ∧ other.received ≤ 2 ^ 31 - 1) :
    (call.gl.isEmpty = false ∨
        Unexpired call.received ((run cf eval tuple start past).store tuple) →
      (perform cf eval tuple (run cf eval tuple start past) call).result = 0 →
      ∃ older creator recent before after,
        past = older ++ creator :: recent ∧
        Creates cf eval tuple (run cf eval tuple start older) creator ∧
        AlwaysLive cf eval tuple (run cf eval tuple start (older ++ [creator]))
          (recent ++ [call]) ∧
        (run cf eval tuple start past).store tuple = some before ∧
        (run cf eval tuple start (past ++ [call])).store tuple = some after ∧
        greylistProperty eval call.gl.glDelay
          ((run cf eval tuple start past).mailspec call.connection) before.delay =
            some after.delay ∧
        greylistProperty eval call.gl.glAttempts
          ((run cf eval tuple start past).mailspec call.connection) before.attempts =
            some after.attempts ∧
        call.received - creator.received > after.delay ∧
        after.connections = 1 + countedCalls cf eval tuple
          (run cf eval tuple start (older ++ [creator])) (recent ++ [call]) ∧
        after.connections > after.attempts) ∧
    (call.gl.isEmpty = false →
      ¬ Unexpired call.received ((run cf eval tuple start past).store tuple) →
      (perform cf eval tuple (run cf eval tuple start past) call).result ≠ 0 ∧
      (call.gl.Evaluates eval ((run cf eval tuple start past).mailspec call.connection) →
        (perform cf eval tuple (run cf eval tuple start past) call).result = 1)) := by
  have cases := step_cases cf eval tuple (run cf eval tuple start past) call
  constructor
  · intro bound passes
    rcases cases with ⟨absent, empty, -, -⟩ | ⟨-, deferred, -⟩ | ⟨-, failed, -⟩ |
      ⟨before, updated, after, found, live, properties, shape, stepped, write⟩
    · rcases bound with nonempty | ⟨r, stored, -⟩
      · rw [empty] at nonempty
        cases nonempty
      · rw [absent] at stored
        cases stored
    · omega
    · omega
    · obtain ⟨pastOrdered, notLater⟩ := ordered_snoc ordered
      obtain ⟨older, creator, recent, split, creates, created, connections, liveAt⟩ :=
        history_of_run cf eval tuple start fresh past pastOrdered before found
      have creatorMember : creator ∈ past := by simp [split]
      obtain ⟨sameCreated, counted⟩ :=
        update_counts cf eval tuple found properties stepped write
      obtain ⟨-, delayEffect, attemptsEffect, -⟩ := greylistProperties_effect eval properties
      obtain ⟨keptCreated, -, -⟩ := greylistProperties_keeps eval properties
      obtain ⟨written, writtenShape, -, -, -, -, sameDelay, sameAttempts, -, verdict⟩ :=
        greylistUpdate_write ((run cf eval tuple start past).mailspec call.connection)
          tuple.envrcpt call.received updated
      cases Option.some.inj (write.symm.trans writtenShape)
      rw [perform_result, ← shape] at passes
      rcases verdict with ⟨-, waited, enough, -⟩ | ⟨deferred, -⟩
      · have creatorRange := range creator (by simp [split])
        have callRange := range call (by simp)
        have creatorFirst := notLater creator creatorMember
        -- both times fit an `int`, so the narrowed difference is the difference
        rw [toInt_of_bounds _ (by omega) (by omega), keptCreated, created] at waited
        refine ⟨older, creator, recent, before, after, split, creates, ?_, found, ?_,
          sameDelay ▸ delayEffect, sameAttempts ▸ attemptsEffect, by omega, ?_, by omega⟩
        · have recentLive := liveAt call.received notLater live
          exact alwaysLive_after cf eval tuple split recentLive ⟨before, found, live⟩
        · rw [run_snoc]
          exact stepped
        · rw [countedCalls_after cf eval tuple split, counted, connections]
          push_cast
          omega
      · omega
  · intro nonempty dead
    rcases cases with ⟨-, empty, -, -⟩ | ⟨-, deferred, -⟩ | ⟨-, failed, notEvaluates⟩ |
      ⟨before, updated, after, found, live, -⟩
    · rw [empty] at nonempty
      cases nonempty
    · exact ⟨by omega, fun _ => deferred⟩
    · exact ⟨by omega, fun evaluates => absurd evaluates notEvaluates⟩
    · exact absurd ⟨before, found, live⟩ dead

end Run

/-! A first contact at 100 under `delay 60` and a second connection at 200. -/

def literalEval (value : Int) (_ : Table) : Option Int := some value

def sampleConfig : Config := ⟨3600, 86400⟩

def sampleTuple : Tuple := ⟨cstr "example.org", cstr "a@example.org", cstr "b@example.net"⟩

def emptyWorld : World := ⟨fun _ => none, fun _ _ => none⟩

def delayRule : GreylistRule Int := ⟨none, some 60, none, none⟩

theorem admission_after_delay :
    (perform sampleConfig literalEval sampleTuple
      (run sampleConfig literalEval sampleTuple emptyWorld [⟨0, delayRule, 100⟩])
      ⟨1, delayRule, 200⟩).result = 0 ∧
    ∃ creator : Call Int, creator.received = 100 ∧ 200 - creator.received > 60 := by
  have passes : (perform sampleConfig literalEval sampleTuple
      (run sampleConfig literalEval sampleTuple emptyWorld [⟨0, delayRule, 100⟩])
      ⟨1, delayRule, 200⟩).result = 0 := by decide
  have late := (admission_is_late_enough sampleConfig literalEval sampleTuple emptyWorld rfl
    [⟨0, delayRule, 100⟩] ⟨1, delayRule, 200⟩ (by decide) (by decide)).1 (.inl rfl) passes
  obtain ⟨older, creator, recent, before, after, split, -, -, -, -, delayEffect, -, waited, -⟩ := late
  have member : creator ∈ [(⟨0, delayRule, 100⟩ : Call Int)] := by simp [split]
  have delay : (60 : Int) = after.delay := Option.some.inj delayEffect
  rw [List.mem_singleton] at member
  subst member
  exact ⟨passes, _, rfl, delay ▸ waited⟩

end Mopher.Greylist
