import Mopher.Server.Transfer

/-!
# What a client is told

How a conversation of `Transfer` ends for the client when the daemon refuses a dump, and
after `greylist_pass`.  A client that was refused takes `ERROR` for a size of zero, agrees
to it, and then reads from a connection that the daemon has closed: `server_check` looks
at two bytes of its stack that nothing has written.
-/

set_option autoImplicit false

namespace Mopher.Transfer

open Duplex
open Receive (onStack atoi serverCheck maxBuffer)
open Request (recvBuffer maxArgs)

/-- The stack of the client's `server_check` happens to hold what it expects. -/
def Stack.Misleads (stack : Stack) : Prop := stack.check.take 2 = cstr "OK"

instance (stack : Stack) : Decidable stack.Misleads := inferInstanceAs (Decidable (_ = _))

theorem checked_eof (stack : Stack) : checked stack.check (some []) = true ↔ stack.Misleads := by
  have two : onStack stack.check [] 2 = stack.check.take 2 := rfl
  rw [checked, serverCheck, two, Stack.Misleads]
  by_cases same : stack.check.take 2 = cstr "OK"
  · simp [same]
  · simp [same]

/-- `ERROR` is a size of zero. -/
theorem clientSize_error (stack : Stack) :
    clientSize stack (some (result (-1))) =
      if stack.allocates = false then .done (-1) none else .acknowledge 0 := by
  have zero : atoi (onStack stack.size (result (-1)) recvBuffer) = 0 := rfl
  have range : ¬ (0 : Int) < 0 ∧ ¬ maxBuffer < 0 := by decide
  simp only [clientSize, zero, range.1, range.2, false_or]

/-! ## A dump that is refused -/

section Refused
variable {tables : Tables} {stack : Stack} {whole : Nat} {line : Bytes}

inductive Refused (stack : Stack) (line : Bytes) : Nat → Config ClientState ServerState → Prop where
  | start : Refused stack line 12 ⟨.request line true, .select, .empty, .empty⟩
  | asked {p : Pipe} : Carries (line ++ [newline]) p →
      Refused stack line (10 + p.flight.length) ⟨.size, .select, .empty, p⟩
  | looked : Refused stack line 9 ⟨.size, .finish (-1), .empty, .empty⟩
  | told {p : Pipe} : Carries (result (-1)) p →
      Refused stack line (7 + p.flight.length) ⟨.size, .closed, p, .empty⟩
  | agreed : stack.allocates = true → Refused stack line 6 ⟨.acknowledge 0, .closed, .empty, .empty⟩
  | waits {p : Pipe} : stack.allocates = true →
      Refused stack line (4 + p.flight.length) ⟨.answer (some []), .closed, .empty, p⟩
  | failed {buffer : Option Bytes} {toLeft toRight : Pipe} :
      Refused stack line (toLeft.flight.length + toRight.flight.length)
        ⟨.done (-1) buffer, .closed, toLeft, toRight⟩

/-- The daemon has closed the connection, so that only the client goes on. -/
theorem step_closed {s : ClientState} {toLeft toRight : Pipe} {c' : Config ClientState ServerState}
    (step : Step (clientAct stack) (serverAct tables stack) whole ⟨s, .closed, toLeft, toRight⟩ c') :
    (∃ s' inward outward, Move (clientAct stack) whole true (s, toLeft, toRight) (s', inward, outward) ∧
        c' = ⟨s', .closed, inward, outward⟩) ∨
      (∃ segment rest, toLeft.flight = segment :: rest ∧
        c' = ⟨s, .closed, ⟨rest, toLeft.arrived ++ segment⟩, toRight⟩) ∨
      (∃ segment rest, toRight.flight = segment :: rest ∧
        c' = ⟨s, .closed, toLeft, ⟨rest, toRight.arrived ++ segment⟩⟩) := by
  obtain moved | ⟨t', inward, outward, move, _⟩ | arrived := step.cases
  · exact .inl moved
  · have halts : serverAct tables stack .closed = .halt true := rfl
    exact (move.of_halt halts).elim
  · exact .inr arrived

theorem Refused.keep (honest : ¬ (stack.Misleads ∧ stack.allocates = true))
    (requested : serverRequest tables (some (line ++ [newline])) = .finish (-1))
    (fits : line.length + 1 < recvBuffer) (lines : line.length + 1 ≤ whole) (answers : 6 ≤ whole)
    (n : Nat) (c c' : Config ClientState ServerState) (refused : Refused stack line n c)
    (step : Step (clientAct stack) (serverAct tables stack) whole c c') :
    ∃ m < n, Refused stack line m c' := by
  have some' : line ++ [newline] ≠ [] := by simp
  have length : (line ++ [newline]).length = line.length + 1 := by simp
  cases refused with
  | start =>
      obtain ⟨segments, cut, rfl⟩ := step.of_write rfl rfl
      refine ⟨_, ?_, .asked (carries_send cut some' (by omega))⟩
      rw [cut.whole some' (by omega)]
      exact Nat.lt_succ_self _
  | asked carries =>
      obtain ⟨one, rfl⟩ | rfl := step.of_carries rfl rfl carries (by omega)
      · exact ⟨_, by rw [one]; exact Nat.lt_succ_self _, .asked .landed⟩
      · rw [requested]
        exact ⟨_, by omega, .looked⟩
  | looked =>
      have six : (result (-1)).length ≤ whole := answers
      obtain ⟨segments, cut, rfl⟩ := step.of_write_right rfl rfl
      refine ⟨_, ?_, .told (carries_send cut (by decide) six)⟩
      rw [cut.whole (by decide) six]
      exact Nat.lt_succ_self _
  | told carries =>
      obtain ⟨s', inward, outward, move, rfl⟩ | ⟨segment, rest, flies, rfl⟩ | ⟨_, _, flies, _⟩ :=
        step_closed step
      · obtain ⟨rfl, ⟨there, rfl, rfl⟩ | ⟨_, rfl, rfl | ⟨empty, _⟩⟩⟩ := move.of_read rfl
        · obtain ⟨all, nothing⟩ := carries.read (show (result (-1)).length ≤ recvBuffer by decide) there
          rw [all, nothing, clientSize_error]
          split
          · exact ⟨_, Nat.lt_of_lt_of_le (by decide) (Nat.le_add_right 7 _), .failed⟩
          · rename_i allocates
            exact ⟨6, by omega, .agreed (Bool.eq_true_of_not_eq_false allocates)⟩
        · exact ⟨_, by simp only [Pipe.empty, List.length_nil]; omega, .failed⟩
        · have filled := carries.there (by decide)
          rw [empty] at filled
          exact absurd rfl filled
      · obtain ⟨one, landed⟩ := carries.arrive flies
        rw [landed]
        exact ⟨_, by rw [one]; exact Nat.lt_succ_self _, .told .landed⟩
      · cases flies
  | agreed allocates =>
      obtain ⟨s', inward, outward, move, rfl⟩ | ⟨_, _, flies, _⟩ | ⟨_, _, flies, _⟩ := step_closed step
      · obtain ⟨rfl, ⟨segments, cut, rfl, rfl⟩ | ⟨_, rfl, rfl⟩⟩ := move.of_write rfl
        · rw [cut.whole (by decide) (Nat.le_trans (by decide) answers)]
          exact ⟨5, by omega, @Refused.waits stack line (Pipe.empty.send [cstr "OK"]) allocates⟩
        · exact ⟨0, by omega, @Refused.failed stack line none .empty .empty⟩
      · cases flies
      · cases flies
  | waits allocates =>
      obtain ⟨s', inward, outward, move, rfl⟩ | ⟨_, _, flies, _⟩ | ⟨segment, rest, flies, rfl⟩ :=
        step_closed step
      · have deny : checked stack.check (some []) = false := by
          rw [← Bool.not_eq_true, checked_eof]
          exact fun misled => honest ⟨misled, allocates⟩
        obtain ⟨rfl, ⟨there, _⟩ | ⟨_, rfl, rfl | ⟨_, rfl⟩⟩⟩ := move.of_read rfl
        · exact absurd rfl there
        · exact ⟨_, by simp only [Pipe.empty, List.length_nil]; omega, .failed⟩
        · rw [deny]
          exact ⟨_, by simp only [Pipe.empty, List.length_nil]; omega, .failed⟩
      · cases flies
      · rw [flies]
        exact ⟨_, by simp only [List.length_cons]; omega, .waits allocates⟩
  | failed =>
      obtain ⟨s', inward, outward, move, rfl⟩ | ⟨segment, rest, flies, rfl⟩ |
        ⟨segment, rest, flies, rfl⟩ := step_closed step
      · have halts (b : Option Bytes) : clientAct stack (.done (-1) b) = .halt true := rfl
        exact (move.of_halt (halts _)).elim
      · rw [flies]
        exact ⟨_, by simp only [List.length_cons]; omega, .failed⟩
      · rw [flies]
        exact ⟨_, by simp only [List.length_cons]; omega, .failed⟩

theorem Refused.goes (n : Nat) (c : Config ClientState ServerState) (refused : Refused stack line n c) :
    (∃ buffer, c.left = .done (-1) buffer) ∨
      ∃ c', Step (clientAct stack) (serverAct tables stack) whole c c' := by
  cases refused with
  | start => exact .inr (Step.can_write whole rfl)
  | asked carries => exact .inr (Step.can_read rfl (carries.there (by simp)))
  | looked => exact .inr (Step.can_write_right whole rfl)
  | told carries => exact .inr (Step.can_read_left rfl (carries.there (by decide)))
  | agreed _ => exact .inr (Step.can_write whole rfl)
  | waits _ => exact .inr ⟨_, .left (.eof rfl rfl)⟩
  | failed => exact .inl ⟨_, rfl⟩

/-- With a stack that misleads it, the client can come to an end that it takes for a
success. -/
theorem misled_run (misled : stack.Misleads) (allocates : stack.allocates = true)
    (requested : serverRequest tables (some (line ++ [newline])) = .finish (-1))
    (fits : line.length + 1 < recvBuffer) :
    Settle.Steps (Step (clientAct stack) (serverAct tables stack) whole)
      ⟨.request line true, .select, .empty, .empty⟩ 9
      ⟨.done 0 (some []), .closed, .empty, ⟨[], cstr "OK"⟩⟩ := by
  have some' : line ++ [newline] ≠ [] := by simp
  have length : (line ++ [newline]).length ≤ recvBuffer := by
    rw [List.length_append, List.length_singleton]
    exact Nat.le_of_lt fits
  have asks : Step (clientAct stack) (serverAct tables stack) whole
      ⟨.request line true, .select, .empty, .empty⟩
      ⟨.size, .select, .empty, ⟨[line ++ [newline]], []⟩⟩ := by
    have written : clientAct stack (.request line true) = .write (line ++ [newline]) _ := rfl
    exact .left (.write written (cut_one whole some'))
  have arrives : Step (clientAct stack) (serverAct tables stack) whole
      ⟨.size, .select, .empty, ⟨[line ++ [newline]], []⟩⟩
      ⟨.size, .select, .empty, ⟨[], line ++ [newline]⟩⟩ := .arriveRight
  have looks : Step (clientAct stack) (serverAct tables stack) whole
      ⟨.size, .select, .empty, ⟨[], line ++ [newline]⟩⟩ ⟨.size, .finish (-1), .empty, .empty⟩ := by
    have read : Step (clientAct stack) (serverAct tables stack) whole
        ⟨.size, .select, .empty, ⟨[], line ++ [newline]⟩⟩
        ⟨.size, serverRequest tables (some ((line ++ [newline]).take recvBuffer)), .empty,
          ⟨[], (line ++ [newline]).drop recvBuffer⟩⟩ := .right (.read rfl some')
    rw [List.drop_eq_nil_of_le length, List.take_of_length_le length, requested] at read
    exact read
  have refuses : Step (clientAct stack) (serverAct tables stack) whole
      ⟨.size, .finish (-1), .empty, .empty⟩ ⟨.size, .closed, ⟨[result (-1)], []⟩, .empty⟩ := by
    have written : serverAct tables stack (.finish (-1)) = .write (result (-1)) _ := rfl
    exact .right (.write written (cut_one whole (show result (-1) ≠ [] by decide)))
  have returns : Step (clientAct stack) (serverAct tables stack) whole
      ⟨.size, .closed, ⟨[result (-1)], []⟩, .empty⟩ ⟨.size, .closed, ⟨[], result (-1)⟩, .empty⟩ :=
    .arriveLeft
  have believes : Step (clientAct stack) (serverAct tables stack) whole
      ⟨.size, .closed, ⟨[], result (-1)⟩, .empty⟩ ⟨.acknowledge 0, .closed, .empty, .empty⟩ := by
    have read : Step (clientAct stack) (serverAct tables stack) whole
        ⟨.size, .closed, ⟨[], result (-1)⟩, .empty⟩
        ⟨clientSize stack (some ((result (-1)).take recvBuffer)), .closed,
          ⟨[], (result (-1)).drop recvBuffer⟩, .empty⟩ :=
      .left (.read rfl (List.cons_ne_nil _ _))
    have whole' : (result (-1)).take recvBuffer = result (-1) := List.take_of_length_le (by decide)
    have nothing : (result (-1)).drop recvBuffer = [] := List.drop_eq_nil_of_le (by decide)
    rw [whole', nothing, clientSize_error, allocates] at read
    exact read
  have agrees : Step (clientAct stack) (serverAct tables stack) whole
      ⟨.acknowledge 0, .closed, .empty, .empty⟩
      ⟨.answer (some []), .closed, .empty, ⟨[cstr "OK"], []⟩⟩ := by
    have written : clientAct stack (.acknowledge 0) = .write (cstr "OK") _ := rfl
    exact .left (.write written (cut_one whole (show cstr "OK" ≠ [] by decide)))
  have lands : Step (clientAct stack) (serverAct tables stack) whole
      ⟨.answer (some []), .closed, .empty, ⟨[cstr "OK"], []⟩⟩
      ⟨.answer (some []), .closed, .empty, ⟨[], cstr "OK"⟩⟩ := .arriveRight
  have ends : Step (clientAct stack) (serverAct tables stack) whole
      ⟨.answer (some []), .closed, .empty, ⟨[], cstr "OK"⟩⟩
      ⟨.done 0 (some []), .closed, .empty, ⟨[], cstr "OK"⟩⟩ := by
    have read : Step (clientAct stack) (serverAct tables stack) whole
        ⟨.answer (some []), .closed, .empty, ⟨[], cstr "OK"⟩⟩
        ⟨if checked stack.check (some []) then .done 0 (some []) else .done (-1) (some []), .closed,
          .empty, ⟨[], cstr "OK"⟩⟩ := by
      have reads : clientAct stack (.answer (some [])) = .read 2 _ := rfl
      exact .left (.eof reads rfl)
    rw [(checked_eof stack).mpr misled] at read
    exact read
  exact .tail (.tail (.tail (.tail (.tail (.tail (.tail (.tail (.tail .refl asks) arrives) looks)
    refuses) returns) believes) agrees) lands) ends

/-- Nothing goes on from there. -/
theorem misled_end (c' : Config ClientState ServerState) :
    ¬ Step (clientAct stack) (serverAct tables stack) whole
      ⟨.done 0 (some []), .closed, .empty, ⟨[], cstr "OK"⟩⟩ c' := by
  intro step
  obtain ⟨s', inward, outward, move, rfl⟩ | ⟨_, _, flies, _⟩ | ⟨_, _, flies, _⟩ := step_closed step
  · have halts : clientAct stack (.done 0 (some [])) = .halt true := rfl
    exact (move.of_halt halts).elim
  · cases flies
  · cases flies

end Refused

/-! ## The two dumps, refused -/

section Commands
variable {tables : Tables} {stack : Stack} {whole : Nat} {command : Bytes} {args : List Bytes}

theorem commandAnswer_refused (dumps : command = cstr "table_dump" ∨ command = cstr "greylist_dump")
    (refused : tables.dumped (command :: args) = none) :
    commandAnswer tables (command :: args) = .finish (-1) := by
  obtain ⟨table, greylist, _⟩ := lookup_dump tables
  simp only [Tables.dumped] at refused
  simp only [commandAnswer]
  by_cases isTable : command = cstr "table_dump"
  · rw [if_pos isTable] at refused
    rw [isTable, table]
    rcases args with _ | ⟨name, _ | ⟨_, _⟩⟩
    · rfl
    · simp only [] at refused
      simp only [callback, refused]
      rfl
    · rfl
  · obtain isGreylist := dumps.resolve_left isTable
    rw [if_neg isTable, if_pos isGreylist] at refused
    rw [isGreylist, greylist, callback, refused]
    rfl

end Commands

/-! ## Passes -/

/-- What a client reads first of what is in the pipe. -/
def Leads (first : Bytes) (p : Pipe) : Prop :=
  (∃ others, p.flight = first :: others ∧ p.arrived = []) ∨ ∃ more, p.arrived = first ++ more

section Leads
variable {first : Bytes} {p : Pipe}

theorem Leads.send (leads : Leads first p) (segments : List Bytes) : Leads first (p.send segments) := by
  rcases leads with ⟨others, flies, nothing⟩ | ⟨more, arrived⟩
  · exact .inl ⟨others ++ segments, by rw [Pipe.send, flies, List.cons_append], nothing⟩
  · exact .inr ⟨more, arrived⟩

theorem Leads.arrive (leads : Leads first p) {segment : Bytes} {rest : List Bytes}
    (flies : p.flight = segment :: rest) : Leads first ⟨rest, p.arrived ++ segment⟩ := by
  rcases leads with ⟨others, flies', nothing⟩ | ⟨more, arrived⟩
  · rw [flies'] at flies
    cases flies
    exact .inr ⟨[], by rw [nothing, List.nil_append, List.append_nil]⟩
  · exact .inr ⟨more ++ segment, by rw [arrived, List.append_assoc]⟩

theorem Leads.read (leads : Leads first p) (there : p.arrived ≠ []) (two : 2 ≤ first.length) :
    p.arrived.take 2 = first.take 2 := by
  rcases leads with ⟨_, _, nothing⟩ | ⟨more, arrived⟩
  · exact absurd nothing there
  · rw [arrived, List.take_append_of_le_length two]

theorem Leads.there (leads : Leads first p) (two : 2 ≤ first.length) :
    p.arrived ++ p.flight.flatten ≠ [] := by
  have some' : first ≠ [] := List.length_pos_iff.mp (by omega)
  rcases leads with ⟨others, flies, nothing⟩ | ⟨more, arrived⟩
  · rw [flies, nothing]
    simpa using fun empty => absurd empty some'
  · rw [arrived]
    simpa using fun empty => absurd empty some'

end Leads

/-- What is left for the daemon after its first line. -/
inductive Tail : ServerState → Nat → Prop where
  | finish (r : Int) : Tail (.finish r) 3
  | select : Tail .select 1
  | closed : Tail .closed 0
  | crashed : Tail .crashed 0

/-- The daemon answers, and goes on with `next`; what starts with `OK` is its last word. -/
structure Speech (whole : Nat) (first : Bytes) (next : ServerState) : Prop where
  two : 2 ≤ first.length
  short : first.length ≤ whole
  tail : ∃ work, Tail next work
  last : first.take 2 = cstr "OK" → next = .select

/-- How `server_check` ends on this line. -/
def status (first : Bytes) : Int := if first.take 2 = cstr "OK" then 0 else -1

theorem checked_line {junk first : Bytes} (two : 2 ≤ first.length) :
    checked junk (some (first.take 2)) = decide (first.take 2 = cstr "OK") := by
  have whole : onStack junk (first.take 2) 2 = first.take 2 :=
    List.take_left' (List.length_take_of_le two)
  rw [checked, serverCheck, whole]
  by_cases same : first.take 2 = cstr "OK"
  · simp [same]
  · simp [same]

section Told
variable {tables : Tables} {stack : Stack} {whole : Nat} {line first : Bytes} {next : ServerState}

inductive Told (tables : Tables) (stack : Stack) (line first : Bytes) (next : ServerState) :
    Nat → Config ClientState ServerState → Prop where
  | start : Told tables stack line first next 12 ⟨.request line false, .select, .empty, .empty⟩
  | asked {p : Pipe} : Carries (line ++ [newline]) p →
      Told tables stack line first next (10 + p.flight.length) ⟨.answer none, .select, .empty, p⟩
  | speaks {s : ServerState} : serverAct tables stack s = .write first (fun _ => next) →
      Told tables stack line first next 9 ⟨.answer none, s, .empty, .empty⟩
  | told {t : ServerState} {work : Nat} {p : Pipe} : Tail t work → Leads first p →
      (first.take 2 = cstr "OK" → t = .select) →
      Told tables stack line first next (work + p.flight.length + 1) ⟨.answer none, t, p, .empty⟩
  | done {t : ServerState} {work : Nat} {p : Pipe} : Tail t work →
      Told tables stack line first next (work + p.flight.length) ⟨.done (status first) none, t, p, .empty⟩

theorem result_length (r : Int) : (result r).length ≤ 6 := by
  unfold result
  split
  · exact Nat.le_refl 6
  · split
    · exact Nat.le_refl 6
    · exact Nat.le_of_ble_eq_true rfl

theorem Told.keep (speech : Speech whole first next)
    (requested : ∃ s, serverRequest tables (some (line ++ [newline])) = s ∧
      serverAct tables stack s = .write first (fun _ => next))
    (fits : line.length + 1 < recvBuffer) (lines : line.length + 1 ≤ whole) (answers : 6 ≤ whole)
    (n : Nat) (c c' : Config ClientState ServerState) (told : Told tables stack line first next n c)
    (step : Step (clientAct stack) (serverAct tables stack) whole c c') :
    ∃ m < n, Told tables stack line first next m c' := by
  have some' : line ++ [newline] ≠ [] := by simp
  have length : (line ++ [newline]).length = line.length + 1 := by simp
  have filled : first ≠ [] := List.length_pos_iff.mp (by have := speech.two; omega)
  cases told with
  | start =>
      obtain ⟨segments, cut, rfl⟩ := step.of_write rfl rfl
      refine ⟨_, ?_, .asked (carries_send cut some' (by omega))⟩
      rw [cut.whole some' (by omega)]
      exact Nat.lt_succ_self _
  | asked carries =>
      obtain ⟨one, rfl⟩ | rfl := step.of_carries rfl rfl carries (by omega)
      · exact ⟨_, by rw [one]; exact Nat.lt_succ_self _, .asked .landed⟩
      · obtain ⟨s, answer, writes⟩ := requested
        rw [answer]
        exact ⟨_, by omega, .speaks writes⟩
  | speaks writes =>
      obtain ⟨segments, cut, rfl⟩ := step.of_write_right writes rfl
      obtain ⟨work, tail⟩ := speech.tail
      have small : work ≤ 3 := by cases tail <;> decide
      rw [cut.whole filled speech.short]
      refine ⟨_, ?_, .told tail (.inl ⟨[], rfl, rfl⟩) speech.last⟩
      change work + 1 + 1 < 9
      omega
  | @told t work p tail leads last =>
      obtain ⟨s', inward, outward, move, rfl⟩ | ⟨t', inward, outward, move, rfl⟩ |
        ⟨segment, rest, flies, rfl⟩ | ⟨_, _, flies, _⟩ := step.cases
      · obtain ⟨rfl, ⟨there, rfl, rfl⟩ | ⟨gone, same, rfl | ⟨empty, _⟩⟩⟩ := move.of_read rfl
        · rw [leads.read there speech.two, checked_line speech.two]
          have done := @Told.done tables stack line first next t work (p.take 2) tail
          have ended : (if decide (first.take 2 = cstr "OK") = true then ClientState.done 0 none
              else .done (-1) none) = .done (status first) none := by
            unfold status
            simp only [decide_eq_true_eq]
            split
            · rfl
            · rfl
          rw [ended]
          exact ⟨_, Nat.lt_succ_self _, done⟩
        · -- the daemon is gone, so this was not its `OK`
          have failed : status first = -1 := by
            refine if_neg fun ok => ?_
            rw [last ok] at gone
            cases gone
          have done := @Told.done tables stack line first next t work p tail
          rw [failed] at done
          rw [same]
          exact ⟨_, Nat.lt_succ_self _, done⟩
        · have some'' := leads.there speech.two
          rw [empty] at some''
          exact absurd rfl some''
      · cases tail with
        | finish r =>
            have vacuous : first.take 2 ≠ cstr "OK" := fun ok => by cases last ok
            have short : (result r).length ≤ whole := Nat.le_trans (result_length r) answers
            obtain ⟨rfl, segments, cut, rfl, rfl⟩ := move.of_write_open rfl rfl
            have few := cut.small short
            have flight : (p.send segments).flight.length ≤ p.flight.length + 1 := by
              rw [Pipe.send, List.length_append]
              omega
            by_cases ends : r = 0 ∨ r = -1
            · rw [if_pos ends]
              exact ⟨_, by omega, .told .closed (leads.send segments) fun ok => absurd ok vacuous⟩
            · rw [if_neg ends]
              exact ⟨_, by omega, .told .select (leads.send segments) fun ok => absurd ok vacuous⟩
        | select => exact absurd rfl (move.of_read_open rfl rfl).1
        | closed =>
            have halts : serverAct tables stack .closed = .halt true := rfl
            exact (move.of_halt halts).elim
        | crashed =>
            have halts : serverAct tables stack .crashed = .halt false := rfl
            exact (move.of_halt halts).elim
      · have shorter := congrArg List.length flies
        rw [List.length_cons] at shorter
        exact ⟨_, by rw [shorter]; simp only; omega, .told tail (leads.arrive flies) last⟩
      · cases flies
  | @done t work p tail =>
      obtain ⟨s', inward, outward, move, rfl⟩ | ⟨t', inward, outward, move, rfl⟩ |
        ⟨segment, rest, flies, rfl⟩ | ⟨_, _, flies, _⟩ := step.cases
      · have halts (status : Int) : clientAct stack (.done status none) = .halt true := rfl
        exact (move.of_halt (halts _)).elim
      · have gone : (clientAct stack (.done (status first) none)).closed = true := rfl
        cases tail with
        | finish r =>
            have short : (result r).length ≤ whole := Nat.le_trans (result_length r) answers
            obtain ⟨rfl, ⟨segments, cut, rfl, rfl⟩ | ⟨_, rfl, rfl⟩⟩ := move.of_write rfl
            · have few := cut.small short
              have flight : (p.send segments).flight.length ≤ p.flight.length + 1 := by
                rw [Pipe.send, List.length_append]
                omega
              by_cases ends : r = 0 ∨ r = -1
              · rw [if_pos ends]
                exact ⟨_, by omega, .done .closed⟩
              · rw [if_neg ends]
                exact ⟨_, by omega, .done .select⟩
            · by_cases ends : r = 0 ∨ r = -1
              · rw [if_pos ends]
                exact ⟨_, by omega, .done .closed⟩
              · rw [if_neg ends]
                exact ⟨_, by omega, .done .select⟩
        | select =>
            obtain ⟨rfl, ⟨there, _⟩ | ⟨_, rfl, rfl | ⟨_, rfl⟩⟩⟩ := move.of_read rfl
            · exact absurd rfl there
            · exact ⟨_, by omega, .done .closed⟩
            · exact ⟨_, by omega, .done .crashed⟩
        | closed =>
            have halts : serverAct tables stack .closed = .halt true := rfl
            exact (move.of_halt halts).elim
        | crashed =>
            have halts : serverAct tables stack .crashed = .halt false := rfl
            exact (move.of_halt halts).elim
      · have shorter := congrArg List.length flies
        rw [List.length_cons] at shorter
        exact ⟨_, by rw [shorter]; simp only; omega, .done tail⟩
      · cases flies

theorem Told.goes (speech : Speech whole first next) (n : Nat) (c : Config ClientState ServerState)
    (told : Told tables stack line first next n c) :
    c.left = .done (status first) none ∨
      ∃ c', Step (clientAct stack) (serverAct tables stack) whole c c' := by
  cases told with
  | start => exact .inr (Step.can_write whole rfl)
  | asked carries => exact .inr (Step.can_read rfl (carries.there (by simp)))
  | speaks writes => exact .inr (Step.can_write_right whole writes)
  | told _ leads _ => exact .inr (Step.can_read_left rfl (leads.there speech.two))
  | done _ => exact .inl rfl

end Told

/-- The daemon lets the tuple pass: it is known, and could be marked. -/
def Tables.passes (tables : Tables) : List Bytes → Bool
  | [source, sender, recipient] =>
      tables.greylistPass source sender recipient ≠ -1 && tables.greylistPass source sender recipient ≠ 0
  | _ => false

section Pass
variable {tables : Tables} {stack : Stack} {whole : Nat} {args : List Bytes}

theorem speech_result {r : Int} (answers : 64 ≤ whole) :
    Speech whole (result r) (if r = 0 ∨ r = -1 then .closed else .select) := by
  have short : (result r).length ≤ whole := by
    have := result_length r
    omega
  by_cases zero : r = 0
  · subst zero
    exact ⟨by decide, short, ⟨0, .closed⟩, by decide⟩
  · by_cases failed : r = -1
    · subst failed
      exact ⟨by decide, short, ⟨0, .closed⟩, by decide⟩
    · have open' : ¬ (r = 0 ∨ r = -1) := by omega
      rw [if_neg open']
      refine ⟨?_, short, ⟨1, .select⟩, fun _ => rfl⟩
      rw [result, if_neg zero, if_neg failed]
      decide

theorem serverGreylistPass_eq (name source sender recipient : Bytes) :
    serverGreylistPass tables [name, source, sender, recipient] =
      if tables.greylistPass source sender recipient = -1 then .finish (-1)
      else if tables.greylistPass source sender recipient = 0 then
        .reply (cstr "Not found") (.finish 1)
      else .finish 1 := by
  rw [serverGreylistPass]
  split
  · rename_i failed
    rw [if_pos failed]
  · rename_i unknown
    rw [if_neg (by rw [unknown]; decide), if_pos unknown]
  · rename_i failed unknown
    rw [if_neg failed, if_neg unknown]

/-- Whatever the daemon says to `greylist_pass`, it says it in one line; and it begins
with `OK` if and only if the tuple passes. -/
theorem pass_speech (answers : 64 ≤ whole) :
    ∃ first next, Speech whole first next ∧
      serverAct tables stack (commandAnswer tables (cstr "greylist_pass" :: args)) =
        .write first (fun _ => next) ∧
      status first = if tables.passes args then 0 else -1 := by
  obtain ⟨_, _, pass⟩ := lookup_dump tables
  have usage : ∃ first next, Speech whole first next ∧
      serverAct tables stack (.reply (cstr "Usage: greylist_pass source from rcpt") (.finish (-1))) =
        .write first (fun _ => next) ∧ status first = -1 :=
    ⟨_, _, ⟨by decide, Nat.le_trans (by decide) answers, ⟨3, .finish (-1)⟩, by decide⟩, rfl, by decide⟩
  simp only [commandAnswer, pass, callback]
  rcases args with _ | ⟨source, _ | ⟨sender, _ | ⟨recipient, _ | ⟨_, _⟩⟩⟩⟩
  · exact usage
  · exact usage
  · exact usage
  · simp only [serverGreylistPass_eq]
    by_cases failed : tables.greylistPass source sender recipient = -1
    · have refused : tables.passes [source, sender, recipient] = false := by simp [Tables.passes, failed]
      rw [if_pos failed, refused]
      exact ⟨_, _, speech_result answers, rfl, by decide⟩
    · by_cases unknown : tables.greylistPass source sender recipient = 0
      · have refused : tables.passes [source, sender, recipient] = false := by
          simp [Tables.passes, unknown]
        rw [if_neg failed, if_pos unknown, refused]
        exact ⟨_, _, ⟨by decide, Nat.le_trans (by decide) answers, ⟨3, .finish 1⟩, by decide⟩, rfl,
          by decide⟩
      · have passes : tables.passes [source, sender, recipient] = true := by
          simp [Tables.passes, failed, unknown]
        rw [if_neg failed, if_neg unknown, passes]
        exact ⟨_, _, speech_result answers, rfl, by decide⟩
  · exact usage

end Pass

end Mopher.Transfer
