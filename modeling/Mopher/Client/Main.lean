import Mopher.Client.Sync

/-!
# The client thread

Model of `client_main` next to the threads that call `client_sync`.  A section
under `client_mutex` is one step.  The wait is split into its entry, what ends it
and the return once the mutex is free again: a signal that comes after the wait has
ended is lost, and so is one that comes before the wait has begun.

What the thread does depends on how the wait ended and not on the queues, so
records can be left over when it waits again.
-/

set_option autoImplicit false

namespace Mopher

inductive Phase where
  /-- The thread has not set `client_running`. -/
  | created
  /-- It has, and has not locked the mutex. -/
  | started
  /-- Inside of `pthread_cond_timedwait`. -/
  | waiting
  /-- The wait returns 0 as soon as the mutex is free. -/
  | signalled
  /-- The wait returns `ETIMEDOUT` as soon as the mutex is free. -/
  | timedOut
  /-- The wait returns another error as soon as the mutex is free. -/
  | failed
  | terminated
deriving DecidableEq

/-- The shared state, where the thread is, and its variable `incomplete`. -/
structure Main (ρ : Type) where
  client : Client ρ
  phase : Phase
  incomplete : Nat
deriving DecidableEq

inductive MainEvent (ρ : Type) where
  /-- The thread sets `client_running`. -/
  | run
  /-- `util_now` and `pthread_mutex_lock`, and on success the first test of the loop. -/
  | lock (success : Bool)
  | sync (record : ρ) (locks signals : Bool)
  | spurious
  | timeout
  | error
  /-- The wait returns and the thread goes on until it waits again or leaves the loop. -/
  | wake
  /-- `client_clear` up to `pthread_join`. -/
  | clear

section Model
variable {ρ : Type} (net : Net) (renders : ρ → Bool)

def mainInit (servers : Nat) : Main ρ :=
  { client := clientInit servers false, phase := .created, incomplete := 0 }

/-- The end of the thread, behind the loop. -/
def Main.leave (s : Main ρ) : Main ρ :=
  { s with client := { s.client with running := false }, phase := .terminated }

/-- The test of the loop. -/
def Main.loop (s : Main ρ) : Main ρ :=
  if s.client.running then { s with phase := .waiting } else s.leave

/-- `pthread_cond_signal`. -/
def Main.signal (s : Main ρ) : Main ρ :=
  if s.phase = .waiting then { s with phase := .signalled } else s

/-- The body of the loop from the return of the wait on. -/
def mainWake (s : Main ρ) : Option (Main ρ) :=
  match s.phase with
  | .signalled =>
      (clientUpdate net renders s.client.queue s.client.servers s.client.clock).map
        fun (incomplete, servers, clock) =>
          { s with
            client := { s.client with servers := servers, queue := [], clock := clock }
            incomplete := incomplete : Main ρ }.loop
  | .timedOut =>
      if s.incomplete = 0 then some s.loop
      else
        (clientReconnect net renders s.client.servers s.client.clock).map
          fun (incomplete, servers, clock) =>
            { s with
              client := { s.client with servers := servers, clock := clock }
              incomplete := incomplete : Main ρ }.loop
  | .failed => some s.leave
  | _ => none

/-- One step; `none` if the thread is not at it. -/
def mainStep (s : Main ρ) : MainEvent ρ → Option (Main ρ)
  | .run =>
      if s.phase = .created then
        some { s with client := { s.client with running := true }, phase := .started }
      else none
  | .lock success =>
      if s.phase = .started then some (if success then s.loop else s.leave) else none
  | .sync record locks signals =>
      let result := clientSync s.client record locks signals
      let next := { s with client := result.2 }
      some (if result.1 && !s.client.servers.isEmpty then next.signal else next)
  | .spurious => if s.phase = .waiting then some { s with phase := .signalled } else none
  | .timeout => if s.phase = .waiting then some { s with phase := .timedOut } else none
  | .error => if s.phase = .waiting then some { s with phase := .failed } else none
  | .wake => mainWake net renders s
  | .clear => some { s with client := { s.client with running := false } : Main ρ }.signal

def mainRun (s : Main ρ) : List (MainEvent ρ) → Option (Main ρ)
  | [] => some s
  | event :: rest => (mainStep net renders s event).bind fun next => mainRun next rest

end Model

section Statement
variable {ρ : Type}

/-- No record waits for the thread, and if one waits for a server, the next timeout
tries again. -/
def Main.Rested (s : Main ρ) : Prop :=
  s.client.queue = [] ∧ ((∃ c ∈ s.client.servers, c.queue ≠ []) → s.incomplete ≠ 0)

/-- The servers to which `client_reconnect` connects. -/
def disconnected (servers : List (Server ρ)) : Nat := servers.countP fun c => !c.socket

/-- The records that wait for them. -/
def pending (servers : List (Server ρ)) : Nat :=
  (servers.map fun c => if c.socket then 0 else c.queue.length).sum

/-- A connection fails, or all the records that wait are written. -/
def ReconnectsWell (net : Net) (s : Client ρ) : Prop :=
  (∃ i < disconnected s.servers, net.connect (s.clock.connects + i) = false) ∨
    ∀ i < pending s.servers, net.write (s.clock.writes + i) = true

/-- When the step leads back into the wait, it does so without work left over: the
first wait begins before any record was accepted, a wait that returns 0 finds a
record or no server that has records waiting, and a wait that times out finds no
record and, if it reconnects, does not write in vain. -/
def Careful (net : Net) (s : Main ρ) (event : MainEvent ρ) : Prop :=
  s.client.running = true →
    match event, s.phase with
    | .lock true, .started => s.client.queue = []
    | .wake, .signalled => s.client.queue ≠ [] ∨ ∀ c ∈ s.client.servers, c.queue = []
    | .wake, .timedOut => s.client.queue = [] ∧ (s.incomplete ≠ 0 → ReconnectsWell net s.client)
    | _, _ => True

def MainEvent.Fits (renders : ρ → Bool) : MainEvent ρ → Prop
  | .sync record _ _ => renders record = true
  | _ => True

end Statement

/-! ## Reconnecting -/

section Reconnect
variable {ρ : Type} (net : Net) {renders : ρ → Bool}

theorem forall_lt_add {p : Nat → Prop} (m n : Nat) :
    (∀ i < m + n, p i) ↔ (∀ i < m, p i) ∧ ∀ i < n, p (m + i) := by
  constructor
  · intro all
    exact ⟨fun i below => all i (by omega), fun i below => all (m + i) (by omega)⟩
  · rintro ⟨low, high⟩ i below
    by_cases first : i < m
    · exact low i first
    · have := high (i - m) (by omega)
      rwa [Nat.add_sub_cancel' (by omega)] at this

/-- `client_reconnect` counts no failure exactly when every connection is made, and
then no record is left exactly when every write completes. -/
theorem clientReconnect_spec : ∀ (servers : List (Server ρ)) (clock : Clock),
    (∀ c ∈ servers, c.Flushed ∧ ∀ record ∈ c.queue, renders record = true) →
    ∃ n servers' clock', clientReconnect net renders servers clock = some (n, servers', clock') ∧
      (n = 0 ↔ ∀ i < disconnected servers, net.connect (clock.connects + i) = true) ∧
      (n = 0 → ((∀ c ∈ servers', c.queue = []) ↔
        ∀ i < pending servers, net.write (clock.writes + i) = true)) := by
  intro servers
  induction servers with
  | nil => intro clock _; exact ⟨0, [], clock, rfl, by simp [disconnected], by simp [pending]⟩
  | cons c rest ih =>
      intro clock sound
      have later := fun other member => sound other (List.mem_cons_of_mem c member)
      obtain ⟨flushed, fits⟩ := sound c List.mem_cons_self
      cases connected : c.socket with
      | true =>
          obtain ⟨n, rest', clock', ran, connects, writes⟩ := ih clock later
          refine ⟨n, c :: rest', clock', ?_, ?_, ?_⟩
          · simp only [clientReconnect, connected, if_true, ran, Option.map_some]
          · simpa [disconnected, connected] using connects
          · intro none'
            rw [List.forall_mem_cons, and_iff_right (flushed connected), writes none']
            simp [pending, connected]
      | false =>
          obtain ⟨ok, c', clock', ran, _, counted, outcome, result⟩ :=
            clientConnectWith_spec net c clock fits
          obtain ⟨n, rest', clock'', ranRest, connects, writes⟩ := ih clock' later
          have inner : clientConnect net renders c clock = some (ok, c', clock') := ran 0
          have count : disconnected (c :: rest) = 1 + disconnected rest := by
            simp [disconnected, connected, Nat.add_comm]
          have total : pending (c :: rest) = c.queue.length + pending rest := by
            simp [pending, connected]
          refine ⟨if ok then n else n + 1, c' :: rest', clock'', ?_, ?_, ?_⟩
          · simp only [clientReconnect, connected, Bool.false_eq_true, if_false, inner, ranRest,
              Option.map_some]
          · rw [count, forall_lt_add]
            have first : (∀ i < 1, net.connect (clock.connects + i) = true) ↔ ok = true := by
              rw [outcome]
              constructor
              · intro all
                exact all 0 (by omega)
              · intro made i below
                obtain rfl : i = 0 := by omega
                exact made
            rw [first]
            have shift (i : Nat) : clock'.connects + i = clock.connects + (1 + i) := by omega
            simp only [shift] at connects
            cases ok with
            | true => simpa using connects
            | false => simp
          · intro none'
            cases ok with
            | false => simp at none'
            | true =>
                rw [List.forall_mem_cons, total, forall_lt_add]
                rcases result with ⟨refused, _⟩ | ⟨_, ⟨all, _, empty, clock''⟩ | ⟨⟨i, below, broken⟩, _, left⟩⟩
                · cases refused
                · have shift (i : Nat) : clock'.writes + i = clock.writes + (c.queue.length + i) := by
                    omega
                  have rest'' := writes (by simpa using none')
                  simp only [shift] at rest''
                  rw [and_iff_right empty, and_iff_right all, rest'']
                · refine iff_of_false (fun both => left both.1) (fun both => ?_)
                  have written := both.1 i below
                  rw [broken] at written
                  cases written

end Reconnect

/-! ## Steps -/

section Steps
variable {ρ : Type} (net : Net) {renders : ρ → Bool}

/-- What holds between the steps as long as no wait begins on pending work. -/
structure Main.Good (renders : ρ → Bool) (s : Main ρ) : Prop where
  holds : ∃ records, s.client.Holds renders records
  retries : s.phase ≠ .terminated → (∃ c ∈ s.client.servers, c.queue ≠ []) → s.incomplete ≠ 0
  rested : s.phase = .waiting → s.client.queue = []

theorem Main.Good.rests {s : Main ρ} (good : s.Good renders) (waiting : s.phase = .waiting) : s.Rested :=
  ⟨good.rested waiting, good.retries (by rw [waiting]; decide)⟩

/-- `client_sync` changes nothing, or queues the record and signals. -/
theorem mainStep_sync (s : Main ρ) (record : ρ) (locks signals : Bool) :
    mainStep net renders s (.sync record locks signals) = some s ∨
      mainStep net renders s (.sync record locks signals) =
        some { s with client := { s.client with queue := s.client.queue ++ [record] } : Main ρ }.signal := by
  by_cases alone : s.client.servers = []
  · left
    simp [mainStep, clientSync, alone]
  · rcases clientSync_cases alone record locks signals with refused | taken
    · left
      simp [mainStep, refused]
    · right
      simp [mainStep, taken, alone]

/-- A wait that returned 0: `client_update` has emptied `client_queue`, and the next
timeout tries again if a record was there or none is left anywhere. -/
theorem mainWake_signalled {s : Main ρ} (good : s.Good renders) (signalled : s.phase = .signalled) :
    ∃ u : Main ρ, mainWake net renders s = some u.loop ∧ u.client.running = s.client.running ∧
      (∃ records, u.client.Holds renders records) ∧
      (u.Rested ↔ s.client.queue ≠ [] ∨ ∀ c ∈ s.client.servers, c.queue = []) := by
  obtain ⟨records, holds⟩ := good.holds
  obtain ⟨front, split, hold⟩ := holds.given
  obtain ⟨n, servers, clock, ran, hold', flushed, _⟩ := clientUpdate_holds net s.client.queue front
    s.client.servers s.client.clock
    (fun record member => holds.fits record (by rw [← split]; simp [member])) hold
  refine ⟨{ s with
      client := { s.client with servers := servers, queue := [], clock := clock }
      incomplete := n }, ?_, rfl, ⟨records, ⟨records, by simp, by rw [← split]; exact hold'⟩,
        holds.fits⟩, ?_⟩
  · simp only [mainWake, signalled, ran, Option.map_some]
  · simp only [Main.Rested, true_and]
    cases queue : s.client.queue with
    | nil =>
        rw [queue, clientUpdate, Option.some.injEq, Prod.mk.injEq, Prod.mk.injEq] at ran
        obtain ⟨rfl, rfl, _⟩ := ran
        simp
    | cons record rest =>
        refine iff_of_true ?_ (.inl (List.cons_ne_nil _ _))
        rintro ⟨c, member, left⟩ none'
        exact left (flushed (by rw [queue]; exact List.cons_ne_nil _ _) none' c member)

/-- A wait that timed out: `client_queue` is left alone, and the next timeout tries
again unless the connections were made and a write has failed. -/
theorem mainWake_timedOut {s : Main ρ} (good : s.Good renders) (timedOut : s.phase = .timedOut) :
    ∃ u : Main ρ, mainWake net renders s = some u.loop ∧ u.client.running = s.client.running ∧
      (∃ records, u.client.Holds renders records) ∧
      (u.Rested ↔ s.client.queue = [] ∧ (s.incomplete ≠ 0 → ReconnectsWell net s.client)) := by
  obtain ⟨records, holds⟩ := good.holds
  obtain ⟨front, split, hold⟩ := holds.given
  by_cases complete : s.incomplete = 0
  · refine ⟨s, ?_, rfl, ⟨records, holds⟩, ?_⟩
    · simp only [mainWake, timedOut, complete, if_true]
    · have retries := good.retries (by rw [timedOut]; decide)
      simp only [Main.Rested, complete, ne_eq, not_true_eq_false, false_implies, and_true]
      rw [and_iff_left]
      exact fun left => retries left complete
  · obtain ⟨n, servers, clock, ran, hold', _⟩ := clientReconnect_holds net s.client.servers s.client.clock
      hold
    obtain ⟨n', servers', clock', ran', connects, writes⟩ := clientReconnect_spec net s.client.servers
      s.client.clock fun c member => ⟨(hold c member).flushed, (hold c member).queue_fits⟩
    rw [ran, Option.some.injEq, Prod.mk.injEq, Prod.mk.injEq] at ran'
    obtain ⟨rfl, rfl, rfl⟩ := ran'
    refine ⟨{ s with
        client := { s.client with servers := servers, clock := clock }
        incomplete := n }, ?_, rfl, ⟨records, ⟨front, split, hold'⟩, holds.fits⟩, ?_⟩
    · simp only [mainWake, timedOut, if_neg complete, ran, Option.map_some]
    · simp only [Main.Rested, ne_eq, complete, not_false_eq_true, true_implies]
      refine and_congr_right fun _ => ?_
      by_cases none' : n = 0
      · have all := connects.mp none'
        have unbroken : ¬ ∃ i < disconnected s.client.servers,
            net.connect (s.client.clock.connects + i) = false := by
          rintro ⟨i, below, refused⟩
          rw [all i below] at refused
          cases refused
        rw [ReconnectsWell, or_iff_right unbroken, ← writes none']
        simp [none']
      · have refused : ∃ i < disconnected s.client.servers,
            net.connect (s.client.clock.connects + i) = false := by
          by_contra unbroken
          apply none'
          rw [connects]
          intro i below
          by_contra refused
          exact unbroken ⟨i, below, by simpa using refused⟩
        exact iff_of_true (fun _ => none') (.inl refused)

/-- The end of a step that tests the condition of the loop. -/
theorem loop_good {u : Main ρ} (holds : ∃ records, u.client.Holds renders records) :
    ((u.loop.phase = .waiting → u.loop.Rested) ↔ (u.client.running = true → u.Rested)) ∧
      ((u.loop.phase = .waiting → u.loop.Rested) → u.loop.Good renders) := by
  cases running : u.client.running with
  | true =>
      have loop : u.loop = { u with phase := .waiting } := by simp [Main.loop, running]
      rw [loop]
      refine ⟨?_, fun rested => ?_⟩
      · simp [Main.Rested]
      · have rested' := rested rfl
        exact ⟨holds, fun _ => rested'.2, fun _ => rested'.1⟩
  | false =>
      have loop : u.loop = u.leave := by simp [Main.loop, running]
      obtain ⟨records, held⟩ := holds
      rw [loop]
      refine ⟨by simp [Main.leave], fun _ => ⟨⟨records, held.given, held.fits⟩, ?_, ?_⟩⟩
      · intro alive
        exact (alive rfl).elim
      · intro waiting
        cases waiting

/-- What a step keeps: it begins a wait without pending work exactly when it is
careful. -/
def StepKept (net : Net) (renders : ρ → Bool) (s : Main ρ) (event : MainEvent ρ) : Prop :=
  mainStep net renders s event = none ∧ Careful net s event ∨
    ∃ next, mainStep net renders s event = some next ∧
      (Careful net s event ↔ (next.phase = .waiting → next.Rested)) ∧
      ((next.phase = .waiting → next.Rested) → next.Good renders)

theorem stepKept_of_good {s next : Main ρ} {event : MainEvent ρ} (careful : Careful net s event)
    (stepped : mainStep net renders s event = some next) (good : next.Good renders) :
    StepKept net renders s event :=
  .inr ⟨next, stepped, iff_of_true careful good.rests, fun _ => good⟩

/-- A step that only moves the thread on, but not into the wait. -/
theorem Main.Good.move {s next : Main ρ} (good : s.Good renders)
    (servers : next.client.servers = s.client.servers) (queue : next.client.queue = s.client.queue)
    (incomplete : next.incomplete = s.incomplete) (alive : s.phase ≠ .terminated)
    (moved : next.phase ≠ .waiting) : next.Good renders := by
  obtain ⟨records, holds⟩ := good.holds
  refine ⟨⟨records, by rw [queue, servers]; exact holds.given, holds.fits⟩, fun _ => ?_, fun waiting => ?_⟩
  · rw [servers, incomplete]
    exact good.retries alive
  · exact (moved waiting).elim

theorem Main.Good.leave {s : Main ρ} (good : s.Good renders) : s.leave.Good renders := by
  obtain ⟨records, holds⟩ := good.holds
  refine ⟨⟨records, holds.given, holds.fits⟩, fun alive => (alive rfl).elim, ?_⟩
  intro waiting
  cases waiting

/-- A signal wakes the thread if it waits, so the queue may have grown. -/
theorem signal_good {s : Main ρ} (holds : ∃ records, s.client.Holds renders records)
    (retries : s.phase ≠ .terminated → (∃ c ∈ s.client.servers, c.queue ≠ []) → s.incomplete ≠ 0) :
    s.signal.Good renders := by
  unfold Main.signal
  split
  · rename_i waiting
    exact ⟨holds, fun _ => retries (by rw [waiting]; decide), fun absurd' => by cases absurd'⟩
  · rename_i elsewhere
    exact ⟨holds, retries, fun waiting => (elsewhere waiting).elim⟩

/-- A step that ends the wait. -/
theorem Main.Good.endWait {s : Main ρ} (good : s.Good renders) {event : MainEvent ρ} {ended : Phase}
    (moved : ended ≠ .waiting) (careful : Careful net s event)
    (step : mainStep net renders s event =
      if s.phase = .waiting then some { s with phase := ended } else none) :
    StepKept net renders s event := by
  by_cases waiting : s.phase = .waiting
  · rw [if_pos waiting] at step
    exact stepKept_of_good net careful step
      (good.move rfl rfl rfl (by rw [waiting]; decide) moved)
  · rw [if_neg waiting] at step
    exact .inl ⟨step, careful⟩

theorem mainStep_kept {s : Main ρ} (good : s.Good renders) {event : MainEvent ρ}
    (fit : event.Fits renders) : StepKept net renders s event := by
  cases event with
  | run =>
      by_cases created : s.phase = .created
      · refine stepKept_of_good net (fun _ => trivial) (if_pos created) ?_
        exact good.move rfl rfl rfl (by rw [created]; decide) (by simp)
      · exact .inl ⟨if_neg created, fun _ => trivial⟩
  | lock success =>
      by_cases started : s.phase = .started
      · have stepped : mainStep net renders s (.lock success) =
            some (if success then s.loop else s.leave) := if_pos started
        cases success with
        | false => exact stepKept_of_good net (fun _ => trivial) stepped good.leave
        | true =>
            obtain ⟨rested, good'⟩ := loop_good good.holds
            refine .inr ⟨_, stepped, ?_, good'⟩
            rw [if_pos rfl, rested]
            have retries := good.retries (by rw [started]; decide)
            simp only [Careful, started, Main.Rested]
            exact imp_congr_right fun _ => ⟨fun empty => ⟨empty, retries⟩, And.left⟩
      · refine .inl ⟨if_neg started, fun _ => ?_⟩
        split
        · exact (started (by assumption)).elim
        · simp_all
        · simp_all
        · trivial
  | sync record locks signals =>
      rcases mainStep_sync net s record locks signals with same | taken
      · exact stepKept_of_good net (fun _ => trivial) same good
      · refine stepKept_of_good net (fun _ => trivial) taken (signal_good ?_ good.retries)
        obtain ⟨records, holds⟩ := good.holds
        exact ⟨_, holds.enqueue fit⟩
  | spurious => exact good.endWait net (by decide) (fun _ => trivial) rfl
  | timeout => exact good.endWait net (by decide) (fun _ => trivial) rfl
  | error => exact good.endWait net (by decide) (fun _ => trivial) rfl
  | clear =>
      refine stepKept_of_good net (fun _ => trivial) rfl (signal_good ?_ good.retries)
      obtain ⟨records, holds⟩ := good.holds
      exact ⟨records, holds.given, holds.fits⟩
  | wake =>
      cases phase : s.phase with
      | signalled =>
          obtain ⟨u, ran, running, holds, rested⟩ := mainWake_signalled net good phase
          obtain ⟨rested', good'⟩ := loop_good holds
          refine .inr ⟨u.loop, ran, ?_, good'⟩
          rw [rested', running, rested]
          simp only [Careful, phase]
      | timedOut =>
          obtain ⟨u, ran, running, holds, rested⟩ := mainWake_timedOut net good phase
          obtain ⟨rested', good'⟩ := loop_good holds
          refine .inr ⟨u.loop, ran, ?_, good'⟩
          rw [rested', running, rested]
          simp only [Careful, phase]
      | failed =>
          have stepped : mainStep net renders s .wake = some s.leave := by
            simp [mainStep, mainWake, phase]
          exact stepKept_of_good net (by simp [Careful, phase]) stepped good.leave
      | created => exact .inl ⟨by simp [mainStep, mainWake, phase], by simp [Careful, phase]⟩
      | started => exact .inl ⟨by simp [mainStep, mainWake, phase], by simp [Careful, phase]⟩
      | waiting => exact .inl ⟨by simp [mainStep, mainWake, phase], by simp [Careful, phase]⟩
      | terminated => exact .inl ⟨by simp [mainStep, mainWake, phase], by simp [Careful, phase]⟩

end Steps

/-! ## Runs -/

section Runs
variable {ρ : Type} (net : Net) {renders : ρ → Bool}

theorem mainRun_append (front back : List (MainEvent ρ)) : ∀ s : Main ρ,
    mainRun net renders s (front ++ back) =
      (mainRun net renders s front).bind fun next => mainRun net renders next back := by
  induction front with
  | nil => intro s; rfl
  | cons event front ih =>
      intro s
      simp only [List.cons_append, mainRun]
      cases mainStep net renders s event with
      | none => rfl
      | some next => exact ih next

theorem mainRun_snoc {s u next : Main ρ} {front : List (MainEvent ρ)} {event : MainEvent ρ}
    (reached : mainRun net renders s front = some u) (stepped : mainStep net renders u event = some next) :
    mainRun net renders s (front ++ [event]) = some next := by
  rw [mainRun_append, reached, Option.bind_some, mainRun, stepped]
  rfl

/-- No wait of the run begins on pending work. -/
def NeverSleepsOnWork (net : Net) (renders : ρ → Bool) (s : Main ρ) (events : List (MainEvent ρ)) :
    Prop :=
  ∀ front back u, events = front ++ back → mainRun net renders s front = some u →
    u.phase = .waiting → u.Rested

/-- Every step of the run is careful. -/
def CarefulRun (net : Net) (renders : ρ → Bool) (s : Main ρ) (events : List (MainEvent ρ)) : Prop :=
  ∀ front event back u, events = front ++ event :: back → mainRun net renders s front = some u →
    Careful net u event

theorem mainInit_good (servers : Nat) : (mainInit servers : Main ρ).Good renders := by
  refine ⟨⟨[], ⟨⟨[], rfl, ?_⟩, by simp⟩⟩, ?_, ?_⟩
  · intro c member
    obtain rfl := List.eq_of_mem_replicate member
    exact ⟨fun _ => rfl, rfl, by simp⟩
  · rintro _ ⟨c, member, left⟩
    obtain rfl := List.eq_of_mem_replicate member
    exact (left rfl).elim
  · intro waiting
    cases waiting

/-- Along a run whose steps are careful or whose waits begin without pending work, the
states are good. -/
theorem mainRun_good {s : Main ρ} (start : s.Good renders) {events : List (MainEvent ρ)}
    (fits : ∀ event ∈ events, event.Fits renders)
    (kept : NeverSleepsOnWork net renders s events ∨ CarefulRun net renders s events)
    (front : List (MainEvent ρ)) : ∀ back u, events = front ++ back →
      mainRun net renders s front = some u → u.Good renders := by
  induction front using List.reverseRecOn with
  | nil => intro back u _ reached; cases reached; exact start
  | append_singleton front event ih =>
      intro back u split reached
      have split' : events = front ++ event :: back := by rw [split]; simp
      rw [mainRun_append] at reached
      obtain ⟨before, reached', last⟩ := Option.bind_eq_some_iff.mp reached
      have stepped : mainStep net renders before event = some u := by
        obtain ⟨next, stepped, last'⟩ := Option.bind_eq_some_iff.mp last
        cases last'
        exact stepped
      have good := ih (event :: back) before split' reached'
      rcases mainStep_kept net good (fits event (by rw [split']; simp)) with ⟨none', _⟩ | ⟨next, ran, iff, good'⟩
      · rw [none'] at stepped
        cases stepped
      · obtain rfl : next = u := Option.some.inj (ran.symm.trans stepped)
        apply good'
        rcases kept with rested | careful
        · exact rested (front ++ [event]) back next split (mainRun_snoc net reached' stepped)
        · exact iff.mp (careful front event back before split' reached')

/-- The client thread never goes to sleep on pending work exactly when every step is
careful, as long as every record fits into the send buffer. -/
theorem never_sleeps_on_work_iff (servers : Nat) (events : List (MainEvent ρ))
    (fits : ∀ event ∈ events, event.Fits renders) :
    NeverSleepsOnWork net renders (mainInit servers) events ↔
      CarefulRun net renders (mainInit servers) events := by
  constructor
  · intro rested front event back u split reached
    have good := mainRun_good net (mainInit_good servers) fits (.inl rested) front (event :: back) u split
      reached
    rcases mainStep_kept net good (fits event (by rw [split]; simp)) with ⟨_, careful⟩ | ⟨next, ran, iff, _⟩
    · exact careful
    · rw [iff]
      exact rested (front ++ [event]) back next (by rw [split]; simp) (mainRun_snoc net reached ran)
  · intro careful front back u split reached waiting
    exact (mainRun_good net (mainInit_good servers) fits (.inr careful) front back u split reached).rests
      waiting

theorem carefulRun_nil (s : Main ρ) : CarefulRun net renders s [] := by
  intro front event back u split
  simp at split

theorem carefulRun_cons {s next : Main ρ} {event : MainEvent ρ} {rest : List (MainEvent ρ)}
    (careful : Careful net s event) (stepped : mainStep net renders s event = some next)
    (later : CarefulRun net renders next rest) : CarefulRun net renders s (event :: rest) := by
  intro front other back u split reached
  cases front with
  | nil =>
      obtain ⟨rfl, _⟩ := List.cons.inj split
      cases reached
      exact careful
  | cons first front =>
      obtain ⟨rfl, split'⟩ := List.cons.inj split
      rw [mainRun, stepped, Option.bind_some] at reached
      exact later front other back u split' reached

end Runs

/-- A record comes while the thread waits, and the only server takes it. -/
theorem signalled_thread_sends_the_record :
    NeverSleepsOnWork ⟨fun _ => true, fun _ => true⟩ (fun _ : Nat => true) (mainInit 1)
      [.run, .lock true, .sync 7 true true, .wake] := by
  refine (never_sleeps_on_work_iff _ 1 _ (by simp [MainEvent.Fits])).mpr ?_
  refine carefulRun_cons _ (fun _ => trivial) rfl ?_
  refine carefulRun_cons _ (fun _ => rfl) rfl ?_
  refine carefulRun_cons _ (fun _ => trivial) rfl ?_
  refine carefulRun_cons _ (fun _ => .inl (List.cons_ne_nil _ _)) rfl ?_
  exact carefulRun_nil _ _

/-- Three ways to sleep on pending work: a record comes between a timeout and the
return of the wait; a spurious wake-up forgets that a server was not reached; a
connection is made, but the record that waited for it cannot be written. -/
theorem thread_sleeps_on_pending_work :
    (¬ NeverSleepsOnWork ⟨fun _ => true, fun _ => true⟩ (fun _ : Nat => true) (mainInit 1)
      [.run, .lock true, .timeout, .sync 7 true true, .wake]) ∧
    (¬ NeverSleepsOnWork ⟨fun _ => false, fun _ => true⟩ (fun _ : Nat => true) (mainInit 1)
      [.run, .lock true, .sync 7 true true, .wake, .spurious, .wake]) ∧
    ¬ NeverSleepsOnWork ⟨fun n => n ≠ 0, fun _ => false⟩ (fun _ : Nat => true) (mainInit 1)
      [.run, .lock true, .sync 7 true true, .wake, .timeout, .wake] := by
  refine ⟨fun rests => ?_, fun rests => ?_, fun rests => ?_⟩
  · obtain ⟨empty, _⟩ := rests _ [] _ (List.append_nil _).symm rfl rfl
    cases empty
  · obtain ⟨_, retries⟩ := rests _ [] _ (List.append_nil _).symm rfl rfl
    exact retries ⟨_, List.mem_cons_self, List.cons_ne_nil _ _⟩ rfl
  · obtain ⟨_, retries⟩ := rests _ [] _ (List.append_nil _).symm rfl rfl
    exact retries ⟨_, List.mem_cons_self, List.cons_ne_nil _ _⟩ rfl

end Mopher
