import Mathlib

/-!
# Synchronisation with other servers

Model of the queues of `client.c`.  `client_sync` puts a record into the queue of
the client thread, which sends it to every server.  A record that a server does
not take waits in the queue of that server until it is connected again.

The outcomes of `sock_connect` and `write` are arbitrary: they are read off two
tapes, and a clock says how many were read.  `sent` is no part of the program, it
keeps the records whose `write` completed.  Allocations succeed.
-/

set_option autoImplicit false

namespace Mopher

/-- Whether the n-th call of `sock_connect` and of `write` is successful. -/
structure Net where
  connect : Nat → Bool
  write : Nat → Bool

structure Clock where
  connects : Nat
  writes : Nat
deriving DecidableEq

/-- `client_t`; `socket` is false when `c_socket` is -1. -/
structure Server (ρ : Type) where
  socket : Bool
  queue : List ρ
  sent : List ρ
deriving DecidableEq

/-- The state that `client_mutex` guards, and the clock. -/
structure Client (ρ : Type) where
  servers : List (Server ρ)
  queue : List ρ
  running : Bool
  clock : Clock
deriving DecidableEq

/-- `client_create`. -/
def clientCreate {ρ : Type} : Server ρ := { socket := false, queue := [], sent := [] }

/-- The state when `client_init` has started the thread for a number of servers;
the thread sets `client_running`. -/
def clientInit {ρ : Type} (servers : Nat) (running : Bool) : Client ρ :=
  { servers := List.replicate servers clientCreate
    queue := []
    running := running
    clock := ⟨0, 0⟩ }

section Model
variable {ρ : Type} (net : Net) (renders : ρ → Bool)

/-! ## Sending

`client_send`, `client_connect` and `client_flush` call each other; the first
argument is how deep these calls may nest. -/

/-- The end of `client_send`, from the second test of `c_socket` on.  `renders` says
whether `var_dump` fits the record into the send buffer. -/
def clientWrite (c : Server ρ) (record : ρ) (clock : Clock) : Bool × Server ρ × Clock :=
  if !c.socket then (false, c, clock)
  else if !renders record then (false, c, clock)
  else if net.write clock.writes then
    (true, { c with sent := c.sent ++ [record] }, { clock with writes := clock.writes + 1 })
  else (false, { c with socket := false }, { clock with writes := clock.writes + 1 })

mutual

def clientSendWith : Nat → Server ρ → ρ → Clock → Option (Bool × Server ρ × Clock)
  | 0, _, _, _ => none
  | depth + 1, c, record, clock =>
      if c.socket then some (clientWrite net renders c record clock)
      else
        match clientConnectWith depth c clock with
        | none => none
        | some (_, c, clock) => some (clientWrite net renders c record clock)

def clientConnectWith : Nat → Server ρ → Clock → Option (Bool × Server ρ × Clock)
  | 0, _, _ => none
  | depth + 1, c, clock =>
      if net.connect clock.connects then
        let c := { c with socket := true }
        let clock := { clock with connects := clock.connects + 1 }
        if c.queue.isEmpty then some (true, c, clock)
        else (clientFlushWith depth c clock).map fun flushed => (true, flushed)
      else some (false, { c with socket := false }, { clock with connects := clock.connects + 1 })

def clientFlushWith : Nat → Server ρ → Clock → Option (Server ρ × Clock)
  | 0, _, _ => none
  | depth + 1, c, clock =>
      match c.queue with
      | [] => some (c, clock)
      | record :: rest =>
          match clientSendWith depth { c with queue := rest } record clock with
          | none => none
          | some (true, c, clock) => clientFlushWith depth c clock
          | some (false, c, clock) => some ({ c with queue := record :: c.queue }, clock)

end

/-- `client_send`; the calls nest no deeper. -/
def clientSend (c : Server ρ) (record : ρ) (clock : Clock) : Option (Bool × Server ρ × Clock) :=
  clientSendWith net renders (c.queue.length + 3) c record clock

def clientConnect (c : Server ρ) (clock : Clock) : Option (Bool × Server ρ × Clock) :=
  clientConnectWith net renders (c.queue.length + 2) c clock

def clientEnqueue (c : Server ρ) (record : ρ) : Server ρ := { c with queue := c.queue ++ [record] }

/-! ## The client thread -/

/-- The loop of `client_update` over the servers; the number counts the sends that
failed. -/
def clientUpdateServers (record : ρ) : List (Server ρ) → Clock →
    Option (Nat × List (Server ρ) × Clock)
  | [], clock => some (0, [], clock)
  | c :: rest, clock =>
      match clientSend net renders c record clock with
      | none => none
      | some (true, c, clock) =>
          (clientUpdateServers record rest clock).map fun (n, rest, clock) => (n, c :: rest, clock)
      | some (false, c, clock) =>
          (clientUpdateServers record rest clock).map fun (n, rest, clock) =>
            (n + 1, clientEnqueue c record :: rest, clock)

/-- `client_update` on the records of `client_queue`. -/
def clientUpdate : List ρ → List (Server ρ) → Clock → Option (Nat × List (Server ρ) × Clock)
  | [], servers, clock => some (0, servers, clock)
  | record :: queue, servers, clock =>
      match clientUpdateServers net renders record servers clock with
      | none => none
      | some (n, servers, clock) =>
          (clientUpdate queue servers clock).map fun (m, servers, clock) => (n + m, servers, clock)

/-- `client_reconnect`; the number counts the servers that stay disconnected. -/
def clientReconnect : List (Server ρ) → Clock → Option (Nat × List (Server ρ) × Clock)
  | [], clock => some (0, [], clock)
  | c :: rest, clock =>
      if c.socket then
        (clientReconnect rest clock).map fun (n, rest, clock) => (n, c :: rest, clock)
      else
        match clientConnect net renders c clock with
        | none => none
        | some (connected, c, clock) =>
            (clientReconnect rest clock).map fun (n, rest, clock) =>
              (if connected then n else n + 1, c :: rest, clock)

/-- `client_sync`, with the outcomes of `pthread_mutex_lock` and
`pthread_cond_signal`; `false` is the return value -1. -/
def clientSync (s : Client ρ) (record : ρ) (locks signals : Bool) : Bool × Client ρ :=
  if s.servers.isEmpty then (true, s)
  else if !s.running then (false, s)
  else if !locks then (false, s)
  else if !signals then (false, s)
  else (true, { s with queue := s.queue ++ [record] })

inductive ClientStep (ρ : Type) where
  | sync (record : ρ) (locks signals : Bool)
  | update
  | reconnect

def clientStep (s : Client ρ) : ClientStep ρ → Option (Client ρ)
  | .sync record locks signals => some (clientSync s record locks signals).2
  | .update =>
      (clientUpdate net renders s.queue s.servers s.clock).map fun (_, servers, clock) =>
        { s with servers := servers, queue := [], clock := clock }
  | .reconnect =>
      (clientReconnect net renders s.servers s.clock).map fun (_, servers, clock) =>
        { s with servers := servers, clock := clock }

/-- The record of a step for which `client_sync` returned 0. -/
def accepted (s : Client ρ) : ClientStep ρ → List ρ
  | .sync record locks signals => if (clientSync s record locks signals).1 then [record] else []
  | .update => []
  | .reconnect => []

/-- The state after the steps and the records that were accepted, in order. -/
def clientRun (s : Client ρ) : List (ClientStep ρ) → Option (Client ρ × List ρ)
  | [] => some (s, [])
  | step :: rest =>
      match clientStep net renders s step with
      | none => none
      | some next =>
          (clientRun next rest).map fun (final, records) => (final, accepted s step ++ records)

end Model

/-! ## What a send does -/

section Sending
variable {ρ : Type} (net : Net) {renders : ρ → Bool}

/-- Everything on its way to a server, from the first record that was sent to the
last one that waits. -/
def Server.pipeline (c : Server ρ) : List ρ := c.sent ++ c.queue

/-- No record waits for a server that is connected. -/
def Server.Flushed (c : Server ρ) : Prop := c.socket = true → c.queue = []

theorem clientWrite_open {c : Server ρ} {record : ρ} {clock : Clock} (connected : c.socket = true)
    (fits : renders record = true) : clientWrite net renders c record clock =
      if net.write clock.writes then
        (true, { c with sent := c.sent ++ [record] }, { clock with writes := clock.writes + 1 })
      else (false, { c with socket := false }, { clock with writes := clock.writes + 1 }) := by
  simp [clientWrite, connected, fits]

theorem clientSendWith_open {c : Server ρ} {record : ρ} {clock : Clock} (connected : c.socket = true)
    (depth : Nat) : clientSendWith net renders (depth + 1) c record clock =
      some (clientWrite net renders c record clock) := by
  simp [clientSendWith, connected]

/-- `client_flush` over an open socket writes the queue up to the first record that
fails, which closes the socket and stays in the queue. -/
theorem clientFlushWith_spec (queue : List ρ) : ∀ (c : Server ρ) (clock : Clock), c.queue = queue →
    c.socket = true → (∀ record ∈ queue, renders record = true) →
    ∃ c' clock', (∀ depth, clientFlushWith net renders (queue.length + 1 + depth) c clock =
        some (c', clock')) ∧
      c'.pipeline = c.pipeline ∧ clock'.connects = clock.connects ∧
      ((∀ i < queue.length, net.write (clock.writes + i) = true) ∧ c'.socket = true ∧ c'.queue = [] ∧
          clock'.writes = clock.writes + queue.length ∨
        (∃ i < queue.length, net.write (clock.writes + i) = false) ∧ c'.socket = false ∧
          c'.queue ≠ []) := by
  induction queue with
  | nil =>
      intro c clock empty connected _
      refine ⟨c, clock, fun depth => ?_, rfl, rfl, .inl ⟨by simp, connected, empty, rfl⟩⟩
      rw [List.length_nil, Nat.zero_add, Nat.add_comm, clientFlushWith, empty]
  | cons record queue ih =>
      intro c clock waiting connected fits
      have fit := fits record List.mem_cons_self
      -- the socket is open, so the call of `client_send` comes down to the write
      have write (depth : Nat) : clientSendWith net renders (queue.length + 1 + depth)
          { c with queue := queue } record clock =
            some (clientWrite net renders { c with queue := queue } record clock) := by
        rw [Nat.add_right_comm]
        exact clientSendWith_open net (c := { c with queue := queue }) connected _
      have written : clientWrite net renders { c with queue := queue } record clock = _ :=
        clientWrite_open net connected fit
      have round (depth : Nat) : (record :: queue).length + 1 + depth = queue.length + 1 + depth + 1 := by
        rw [List.length_cons]
        omega
      cases outcome : net.write clock.writes with
      | false =>
          refine ⟨{ c with socket := false, queue := record :: queue },
            { clock with writes := clock.writes + 1 }, fun depth => ?_, ?_, rfl,
            .inr ⟨⟨0, by simp, by simpa using outcome⟩, rfl, List.cons_ne_nil _ _⟩⟩
          · rw [round, clientFlushWith, waiting]
            simp only [write depth, written, outcome, Bool.false_eq_true, if_false]
          · simp only [Server.pipeline, waiting]
      | true =>
          obtain ⟨c', clock', flushed, kept, connects, result⟩ :=
            ih { c with queue := queue, sent := c.sent ++ [record] }
              { clock with writes := clock.writes + 1 } rfl connected
              fun other member => fits other (List.mem_cons_of_mem _ member)
          refine ⟨c', clock', fun depth => ?_, ?_, connects, ?_⟩
          · rw [round, clientFlushWith, waiting]
            simp only [write depth, written, outcome, if_true]
            exact flushed depth
          · rw [kept]
            simp only [Server.pipeline, waiting, List.append_assoc, List.singleton_append]
          · have shift (i : Nat) : clock.writes + 1 + i = clock.writes + (i + 1) := by omega
            simp only [shift] at result
            rcases result with ⟨all, open', empty, writes⟩ | ⟨⟨i, inside, failed⟩, closed, left⟩
            · refine .inl ⟨?_, open', empty, ?_⟩
              · intro i inside
                cases i with
                | zero => exact outcome
                | succ i => exact all i (by simpa using inside)
              · rw [writes, List.length_cons]
            · exact .inr ⟨⟨i + 1, by simpa using inside, failed⟩, closed, left⟩

/-- `client_connect`.  It answers with success, too, when the flush that it starts
fails and closes the socket again. -/
theorem clientConnectWith_spec (c : Server ρ) (clock : Clock)
    (fits : ∀ record ∈ c.queue, renders record = true) :
    ∃ connected c' clock', (∀ depth, clientConnectWith net renders (c.queue.length + 2 + depth) c clock =
        some (connected, c', clock')) ∧
      c'.pipeline = c.pipeline ∧ clock'.connects = clock.connects + 1 ∧
      connected = net.connect clock.connects ∧
      (connected = false ∧ c'.socket = false ∧ c'.queue = c.queue ∧ clock'.writes = clock.writes ∨
        connected = true ∧
          ((∀ i < c.queue.length, net.write (clock.writes + i) = true) ∧ c'.socket = true ∧
              c'.queue = [] ∧ clock'.writes = clock.writes + c.queue.length ∨
            (∃ i < c.queue.length, net.write (clock.writes + i) = false) ∧ c'.socket = false ∧
              c'.queue ≠ [])) := by
  have round (depth : Nat) : c.queue.length + 2 + depth = c.queue.length + 1 + depth + 1 := by omega
  cases outcome : net.connect clock.connects with
  | false =>
      refine ⟨false, { c with socket := false }, { clock with connects := clock.connects + 1 },
        fun depth => ?_, rfl, rfl, rfl, .inl ⟨rfl, rfl, rfl, rfl⟩⟩
      rw [round, clientConnectWith]
      simp only [outcome, Bool.false_eq_true, if_false]
  | true =>
      obtain ⟨c', clock', flushed, kept, connects, result⟩ :=
        clientFlushWith_spec net c.queue { c with socket := true }
          { clock with connects := clock.connects + 1 } rfl rfl fits
      refine ⟨true, c', clock', fun depth => ?_, kept, connects, rfl, .inr ⟨rfl, result⟩⟩
      rw [round, clientConnectWith]
      simp only [outcome, if_true]
      cases empty : c.queue with
      | nil =>
          -- an empty queue is not flushed, which makes no difference
          have nothing := flushed 0
          rw [clientFlushWith] at nothing
          simp only [empty] at nothing
          simp only [List.isEmpty_nil, if_true]
          rw [Option.some.injEq, Prod.mk.injEq] at nothing
          rw [nothing.1, nothing.2]
      | cons record queue =>
          rw [← empty]
          simp only [empty, List.isEmpty_cons, Bool.false_eq_true, if_false]
          rw [← empty, flushed depth]
          rfl

/-- `client_send` either writes the record behind all that waited for the server, or
fails and leaves the server disconnected with everything that waited. -/
theorem clientSend_spec (c : Server ρ) (record : ρ) (clock : Clock) (flushed : c.Flushed)
    (fits : ∀ other ∈ c.queue, renders other = true) (fit : renders record = true) :
    ∃ sent c' clock', clientSend net renders c record clock = some (sent, c', clock') ∧
      (sent = true ∧ c'.pipeline = c.pipeline ++ [record] ∧ c'.queue = [] ∨
        sent = false ∧ c'.pipeline = c.pipeline ∧ c'.socket = false) := by
  -- the write of the record itself, on a server without a queue
  have write (c : Server ρ) (clock : Clock) (connected : c.socket = true) (empty : c.queue = []) :
      ∃ sent c' clock', clientWrite net renders c record clock = (sent, c', clock') ∧
        (sent = true ∧ c'.pipeline = c.pipeline ++ [record] ∧ c'.queue = [] ∨
          sent = false ∧ c'.pipeline = c.pipeline ∧ c'.socket = false) := by
    rw [clientWrite_open net connected fit]
    cases net.write clock.writes with
    | true => exact ⟨true, _, _, rfl, .inl ⟨rfl, by simp [Server.pipeline, empty], empty⟩⟩
    | false => exact ⟨false, _, _, rfl, .inr ⟨rfl, rfl, rfl⟩⟩
  cases connected : c.socket with
  | true =>
      obtain ⟨sent, c', clock', written, result⟩ := write c clock connected (flushed connected)
      refine ⟨sent, c', clock', ?_, result⟩
      rw [clientSend, clientSendWith_open net connected, written]
  | false =>
      obtain ⟨ok, c', clock', ran, kept, _, _, result⟩ := clientConnectWith_spec net c clock fits
      have called : clientSend net renders c record clock =
          some (clientWrite net renders c' record clock') := by
        have inner := ran 0
        rw [Nat.add_zero] at inner
        simp only [clientSend, clientSendWith, connected, Bool.false_eq_true, if_false, inner]
      have failed (closed : c'.socket = false) :
          clientWrite net renders c' record clock' = (false, c', clock') := by
        simp [clientWrite, closed]
      rw [called]
      rcases result with ⟨_, closed, _⟩ | ⟨_, ⟨_, open', empty, _⟩ | ⟨_, closed, _⟩⟩
      · exact ⟨false, c', clock', by rw [failed closed], .inr ⟨rfl, kept, closed⟩⟩
      · obtain ⟨sent, c'', clock'', written, result⟩ := write c' clock' open' empty
        rw [kept] at result
        exact ⟨sent, c'', clock'', by rw [written], result⟩
      · exact ⟨false, c', clock', by rw [failed closed], .inr ⟨rfl, kept, closed⟩⟩

end Sending

/-! ## Every record is kept -/

section Kept
variable {ρ : Type} (net : Net) {renders : ρ → Bool}

/-- A server to which `records` were given so far. -/
structure Server.Holds (renders : ρ → Bool) (records : List ρ) (c : Server ρ) : Prop where
  flushed : c.Flushed
  pipeline : c.pipeline = records
  fits : ∀ record ∈ records, renders record = true

theorem Server.Holds.queue_fits {records : List ρ} {c : Server ρ} (holds : c.Holds renders records) :
    ∀ record ∈ c.queue, renders record = true := by
  intro record member
  apply holds.fits
  rw [← holds.pipeline]
  exact List.mem_append_right _ member

theorem Server.Holds.add {records : List ρ} {record : ρ} {c : Server ρ}
    (fits : ∀ other ∈ records, renders other = true) (fit : renders record = true)
    (flushed : c.Flushed) (pipeline : c.pipeline = records ++ [record]) :
    c.Holds renders (records ++ [record]) := by
  refine ⟨flushed, pipeline, ?_⟩
  intro other member
  rcases List.mem_append.mp member with old | new
  · exact fits other old
  · rw [List.mem_singleton.mp new]
    exact fit

/-- One round of `client_update` gives the record to every server; a server to which
it could not be sent keeps it in its queue. -/
theorem clientUpdateServers_holds {records : List ρ} {record : ρ} (fit : renders record = true) :
    ∀ (servers : List (Server ρ)) (clock : Clock), (∀ c ∈ servers, c.Holds renders records) →
    ∃ n servers' clock', clientUpdateServers net renders record servers clock =
        some (n, servers', clock') ∧ (∀ c ∈ servers', c.Holds renders (records ++ [record])) ∧
      (n = 0 → ∀ c ∈ servers', c.queue = []) ∧ servers'.length = servers.length := by
  intro servers
  induction servers with
  | nil => intro clock _; exact ⟨0, [], clock, rfl, by simp, by simp, rfl⟩
  | cons c rest ih =>
      intro clock hold
      have holds := hold c List.mem_cons_self
      obtain ⟨sent, c', clock', ran, result⟩ :=
        clientSend_spec net c record clock holds.flushed holds.queue_fits fit
      obtain ⟨n, rest', clock'', ranRest, holdRest, flushedRest, lengthRest⟩ :=
        ih clock' fun other member => hold other (List.mem_cons_of_mem _ member)
      rcases result with ⟨rfl, pipeline, empty⟩ | ⟨rfl, pipeline, closed⟩
      · have added : c'.Holds renders (records ++ [record]) :=
          Server.Holds.add holds.fits fit (fun _ => empty) (by rw [pipeline, holds.pipeline])
        refine ⟨n, c' :: rest', clock'', ?_, ?_, ?_, by simp [lengthRest]⟩
        · simp only [clientUpdateServers, ran, ranRest, Option.map_some]
        · exact List.forall_mem_cons.mpr ⟨added, holdRest⟩
        · intro none'
          exact List.forall_mem_cons.mpr ⟨empty, flushedRest none'⟩
      · have added : (clientEnqueue c' record).Holds renders (records ++ [record]) := by
          refine Server.Holds.add holds.fits fit (fun connected => ?_) ?_
          · simp only [clientEnqueue, closed] at connected
            cases connected
          · rw [← holds.pipeline, ← pipeline]
            simp only [Server.pipeline, clientEnqueue, List.append_assoc]
        refine ⟨n + 1, clientEnqueue c' record :: rest', clock'', ?_, ?_, by simp, by simp [lengthRest]⟩
        · simp only [clientUpdateServers, ran, ranRest, Option.map_some]
        · exact List.forall_mem_cons.mpr ⟨added, holdRest⟩

/-- `client_update` gives the records of the queue to every server, in order.  When
it counts no failure after at least one record, no server has records that wait. -/
theorem clientUpdate_holds (queue : List ρ) : ∀ (records : List ρ) (servers : List (Server ρ))
    (clock : Clock), (∀ record ∈ queue, renders record = true) →
    (∀ c ∈ servers, c.Holds renders records) →
    ∃ n servers' clock', clientUpdate net renders queue servers clock = some (n, servers', clock') ∧
      (∀ c ∈ servers', c.Holds renders (records ++ queue)) ∧
      (queue ≠ [] → n = 0 → ∀ c ∈ servers', c.queue = []) ∧ servers'.length = servers.length := by
  induction queue with
  | nil =>
      intro records servers clock _ hold
      refine ⟨0, servers, clock, rfl, ?_, fun some' => (some' rfl).elim, rfl⟩
      simpa using hold
  | cons record queue ih =>
      intro records servers clock fits hold
      obtain ⟨n, servers', clock', ran, hold', flushed, length⟩ :=
        clientUpdateServers_holds net (fits record List.mem_cons_self) servers clock hold
      obtain ⟨m, servers'', clock'', ranRest, hold'', flushed', length'⟩ :=
        ih (records ++ [record]) servers' clock'
          (fun other member => fits other (List.mem_cons_of_mem _ member)) hold'
      refine ⟨n + m, servers'', clock'', ?_, ?_, ?_, by omega⟩
      · simp only [clientUpdate, ran, ranRest, Option.map_some]
      · simpa using hold''
      · intro _ none'
        cases queue with
        | nil =>
            simp only [clientUpdate, Option.some.injEq, Prod.mk.injEq] at ranRest
            rw [← ranRest.2.1]
            exact flushed (by omega)
        | cons next queue => exact flushed' (by simp) (by omega)

theorem clientReconnect_holds {records : List ρ} : ∀ (servers : List (Server ρ)) (clock : Clock),
    (∀ c ∈ servers, c.Holds renders records) →
    ∃ n servers' clock', clientReconnect net renders servers clock = some (n, servers', clock') ∧
      (∀ c ∈ servers', c.Holds renders records) ∧ servers'.length = servers.length := by
  intro servers
  induction servers with
  | nil => intro clock _; exact ⟨0, [], clock, rfl, by simp, rfl⟩
  | cons c rest ih =>
      intro clock hold
      have holds := hold c List.mem_cons_self
      have later := fun other member => hold other (List.mem_cons_of_mem c member)
      cases connected : c.socket with
      | true =>
          obtain ⟨n, rest', clock', ran, hold', length⟩ := ih clock later
          refine ⟨n, c :: rest', clock', ?_, List.forall_mem_cons.mpr ⟨holds, hold'⟩, by simp [length]⟩
          simp only [clientReconnect, connected, if_true, ran, Option.map_some]
      | false =>
          obtain ⟨ok, c', clock', ran, pipeline, _, _, result⟩ :=
            clientConnectWith_spec net c clock holds.queue_fits
          obtain ⟨n, rest', clock'', ranRest, hold', length⟩ := ih clock' later
          have holds' : c'.Holds renders records := by
            refine ⟨?_, by rw [pipeline, holds.pipeline], holds.fits⟩
            intro open'
            rcases result with ⟨_, closed, _⟩ | ⟨_, ⟨_, _, empty, _⟩ | ⟨_, closed, _⟩⟩
            · rw [closed] at open'; cases open'
            · exact empty
            · rw [closed] at open'; cases open'
          refine ⟨if ok then n else n + 1, c' :: rest', clock'', ?_,
            List.forall_mem_cons.mpr ⟨holds', hold'⟩, by simp [length]⟩
          have inner : clientConnect net renders c clock = some (ok, c', clock') := ran 0
          simp only [clientReconnect, connected, Bool.false_eq_true, if_false, inner, ranRest,
            Option.map_some]

/-- Every server was given the records up to those that wait in `client_queue`. -/
structure Client.Holds (renders : ρ → Bool) (records : List ρ) (s : Client ρ) : Prop where
  given : ∃ front, front ++ s.queue = records ∧ ∀ c ∈ s.servers, c.Holds renders front
  fits : ∀ record ∈ records, renders record = true

theorem Client.Holds.enqueue {records : List ρ} {record : ρ} {s : Client ρ}
    (holds : s.Holds renders records) (fit : renders record = true) :
    ({ s with queue := s.queue ++ [record] } : Client ρ).Holds renders (records ++ [record]) := by
  obtain ⟨front, split, hold⟩ := holds.given
  refine ⟨⟨front, by simp [← split], hold⟩, ?_⟩
  intro other member
  rcases List.mem_append.mp member with old | new
  · exact holds.fits other old
  · rw [List.mem_singleton.mp new]
    exact fit

/-- The record of a step fits into the send buffer. -/
def ClientStep.Fits (renders : ρ → Bool) : ClientStep ρ → Prop
  | .sync record _ _ => renders record = true
  | .update => True
  | .reconnect => True

/-- With a server to synchronise with, `client_sync` returns 0 exactly when it has
put the record into `client_queue`. -/
theorem clientSync_cases {s : Client ρ} (some' : s.servers ≠ []) (record : ρ) (locks signals : Bool) :
    clientSync s record locks signals = (false, s) ∨
      clientSync s record locks signals = (true, { s with queue := s.queue ++ [record] }) := by
  unfold clientSync
  rw [if_neg (by simpa using some')]
  split_ifs <;> simp

theorem clientStep_holds {records : List ρ} {s : Client ρ} (some' : s.servers ≠ [])
    (holds : s.Holds renders records) {step : ClientStep ρ} (fit : step.Fits renders) :
    ∃ next, clientStep net renders s step = some next ∧
      next.Holds renders (records ++ accepted s step) ∧
      next.servers.length = s.servers.length := by
  obtain ⟨front, split, hold⟩ := holds.given
  cases step with
  | sync record locks signals =>
      refine ⟨_, rfl, ?_, ?_⟩
      · rcases clientSync_cases some' record locks signals with refused | taken
        · simpa [accepted, refused] using holds
        · simp only [accepted, taken, if_true]
          exact holds.enqueue fit
      · rcases clientSync_cases some' record locks signals with refused | taken
        · rw [refused]
        · rw [taken]
  | update =>
      obtain ⟨n, servers, clock, ran, hold', _, length⟩ := clientUpdate_holds net s.queue front s.servers
        s.clock (fun record member => holds.fits record (by rw [← split]; simp [member])) hold
      refine ⟨{ s with servers := servers, queue := [], clock := clock }, ?_, ?_, length⟩
      · simp only [clientStep, ran, Option.map_some]
      · rw [accepted, List.append_nil]
        exact ⟨⟨records, by simp, by rw [← split]; exact hold'⟩, holds.fits⟩
  | reconnect =>
      obtain ⟨n, servers, clock, ran, hold', length⟩ := clientReconnect_holds net s.servers s.clock hold
      refine ⟨{ s with servers := servers, clock := clock }, ?_, ?_, length⟩
      · simp only [clientStep, ran, Option.map_some]
      · rw [accepted, List.append_nil]
        exact ⟨⟨front, split, hold'⟩, holds.fits⟩

theorem clientRun_holds (steps : List (ClientStep ρ)) : ∀ (records : List ρ) (s : Client ρ),
    s.servers ≠ [] → s.Holds renders records → (∀ step ∈ steps, step.Fits renders) →
    ∃ final more, clientRun net renders s steps = some (final, more) ∧
      final.Holds renders (records ++ more) ∧ final.servers.length = s.servers.length := by
  induction steps with
  | nil => intro records s _ holds _; exact ⟨s, [], rfl, by simpa using holds, rfl⟩
  | cons step rest ih =>
      intro records s some' holds fits
      obtain ⟨next, stepped, holds', length⟩ := clientStep_holds net some' holds
        (fits step List.mem_cons_self)
      have some'' : next.servers ≠ [] := by
        rw [← List.length_pos_iff, length, List.length_pos_iff]
        exact some'
      obtain ⟨final, more, ran, holdsFinal, length'⟩ := ih _ next some'' holds' fun other member =>
        fits other (List.mem_cons_of_mem _ member)
      refine ⟨final, accepted s step ++ more, ?_, ?_, by omega⟩
      · simp only [clientRun, stepped, ran, Option.map_some]
      · simpa using holdsFinal

/-- Without a server to synchronise with the steps come to an end, too. -/
theorem clientRun_alone (steps : List (ClientStep ρ)) : ∀ s : Client ρ, s.servers = [] → s.queue = [] →
    ∃ final more, clientRun net renders s steps = some (final, more) ∧ final.servers = [] := by
  induction steps with
  | nil => intro s alone _; exact ⟨s, [], rfl, alone⟩
  | cons step rest ih =>
      intro s alone empty
      have stepped : clientStep net renders s step = some s := by
        obtain ⟨servers, queue, running, clock⟩ := s
        obtain rfl : servers = [] := alone
        obtain rfl : queue = [] := empty
        cases step with
        | sync record locks signals => rfl
        | update => rfl
        | reconnect => rfl
      obtain ⟨final, more, ran, alone'⟩ := ih s alone empty
      refine ⟨final, accepted s step ++ more, ?_, alone'⟩
      simp only [clientRun, stepped, ran, Option.map_some]

/-- Synchronisation keeps every record, in order: after any steps, with any outcomes
of the calls of `sock_connect` and `write`, the records that were written to a
server, those in its queue and those in `client_queue` are the records for which
`client_sync` returned 0. -/
theorem synchronisation_keeps_every_record (renders : ρ → Bool) (servers : Nat) (running : Bool)
    (steps : List (ClientStep ρ)) (fits : ∀ step ∈ steps, step.Fits renders) :
    ∃ final records, clientRun net renders (clientInit servers running) steps = some (final, records) ∧
      final.servers.length = servers ∧
      ∀ c ∈ final.servers, c.sent ++ c.queue ++ final.queue = records := by
  cases servers with
  | zero =>
      obtain ⟨final, records, ran, alone⟩ := clientRun_alone net steps (clientInit 0 running) rfl rfl
      exact ⟨final, records, ran, by simp [alone], by simp [alone]⟩
  | succ servers =>
      have start : (clientInit (servers + 1) running : Client ρ).Holds renders [] := by
        refine ⟨⟨[], rfl, ?_⟩, by simp⟩
        intro c member
        obtain rfl := List.eq_of_mem_replicate member
        exact ⟨fun _ => rfl, rfl, by simp⟩
      obtain ⟨final, records, ran, holds, length⟩ :=
        clientRun_holds net steps [] (clientInit (servers + 1) running) (by simp [clientInit]) start fits
      rw [List.nil_append] at holds
      obtain ⟨front, split, hold⟩ := holds.given
      refine ⟨final, records, ran, by simpa [clientInit] using length, ?_⟩
      intro c member
      rw [← split, ← (hold c member).pipeline]
      rfl

end Kept

/-- Two servers; the first connection fails, then a write to the second one. -/
theorem two_servers_keep_every_record : ∃ final records,
    clientRun ⟨fun n => n ≠ 0, fun n => n ≠ 1⟩ (fun _ : Nat => true) (clientInit 2 true)
        [.sync 1 true true, .update, .sync 2 true true, .sync 3 true true, .update, .sync 4 true true,
          .reconnect] = some (final, records) ∧
      final.servers.length = 2 ∧ ∀ c ∈ final.servers, c.sent ++ c.queue ++ final.queue = records :=
  synchronisation_keeps_every_record _ _ 2 true _ (by simp [ClientStep.Fits])

end Mopher
