import Mopher.Regdom.Idna

/-!
# Requests to the control server

Model of `server_request` and `server_exec_cmd` with the commands of `server.c`.  An
access outside of `cmd_buffer` and a use of an `argv` element that was not set stop the
model with a fault.  Newlines are stripped from the end without a look at how many bytes
there are, and the first word is looked up without a look at how many words there are.
-/

set_option autoImplicit false

namespace Mopher.Request

open Regdom (strtokR)

def recvBuffer : Nat := 4096

def maxArgs : Nat := 16

inductive Fault where
  | outside (index : Int)
  | unset (element : Nat)
deriving Repr, DecidableEq

/-- What the `read` of `server_request` returns: -1, or the bytes that came. -/
inductive Read where
  | error
  | data (bytes : Bytes) (fits : bytes.length ≤ recvBuffer)

inductive Command where
  | tableDump
  | greylistDump
  | greylistPass
  | help
  | quit
  | dummy
deriving Repr, DecidableEq

/-- What the commands ask: `dbt_dump`, `greylist_dump`, `greylist_pass`, whether
`server_output` succeeds, and whether the build has the `dummy` command. -/
structure Daemon where
  dbtDump : Bytes → Int
  greylistDump : Int
  greylistPass : Bytes → Bytes → Bytes → Int
  output : Bool
  debug : Bool

section Server
variable (daemon : Daemon)

/-- `server_functions`. -/
def serverFunctions : List (Bytes × Command) :=
  [(cstr "table_dump", .tableDump), (cstr "greylist_dump", .greylistDump),
    (cstr "greylist_pass", .greylistPass), (cstr "help", .help), (cstr "quit", .quit)] ++
    if daemon.debug then [(cstr "dummy", .dummy)] else []

/-- The lookup in `server_function_table`; unknown commands are answered by `help`. -/
def lookup (name : Bytes) : Command :=
  match (serverFunctions daemon).find? fun entry => entry.1 = name with
  | some (_, command) => command
  | none => .help

def argvAt (argv : List Bytes) (element : Nat) : Except Fault Bytes :=
  match argv[element]? with
  | some word => .ok word
  | none => .error (.unset element)

/-- The end of `server_table_dump` and `server_greylist_dump`. -/
def dumpResult (len : Int) : Int :=
  if len = 0 then 1
  else if len = -1 then -1
  else if daemon.output then 1 else -1

/-- `sf_callback`. -/
def callback (command : Command) (argv : List Bytes) : Except Fault Int :=
  match command with
  | .tableDump =>
      if argv.length ≠ 2 then .ok (-1)
      else do
        let name ← argvAt argv 1
        return dumpResult daemon (daemon.dbtDump name)
  | .greylistDump => .ok (dumpResult daemon daemon.greylistDump)
  | .greylistPass =>
      if argv.length ≠ 4 then do
        let _ ← argvAt argv 0
        return -1
      else do
        let source ← argvAt argv 1
        let sender ← argvAt argv 2
        let recipient ← argvAt argv 3
        return if daemon.greylistPass source sender recipient = -1 then -1 else 1
  | .help => do
      let _ ← argvAt argv 0
      return 1
  | .quit => .ok 0
  | .dummy => .ok 1

/-- `server_exec_cmd`; the element of `argv` behind the last word is not set. -/
def serverExecCmd (cmd : Bytes) : Except Fault Int := do
  let argv := (strtokR 32 cmd).take maxArgs
  if argv.length = maxArgs then return -1
  let name ← argvAt argv 0
  let r ← callback daemon (lookup daemon name) argv
  if r = -1 then
    let _ ← argvAt argv 0
    return r
  else return r

/-- The loop that strips newlines: what `len` is in the end. -/
def stripNewlines (cmdBuffer : Bytes) : Nat → Except Fault Nat
  | 0 => .error (.outside (-1))
  | len + 1 =>
      if cmdBuffer[len]? = some 10 then stripNewlines cmdBuffer len else .ok (len + 1)

/-- `server_request`. -/
def serverRequest : Read → Except Fault Int
  | .error => .ok (-1)
  | .data bytes _ =>
      if bytes.length = recvBuffer then .ok (-1)
      else do
        let len ← stripNewlines bytes bytes.length
        if len = 0 then return 0
        serverExecCmd daemon ((bytes.take len).takeWhile (· ≠ 0))

end Server

/-- The command in a request: the text in front of the first NUL, without the newlines
at the end of all bytes. -/
def commandOf (bytes : Bytes) : Bytes := (bytes.rdropWhile (· = 10)).takeWhile (· ≠ 0)

/-- The request is for nobody, or there is a word in it. -/
def Read.HasWord : Read → Prop
  | .error => True
  | .data bytes _ => bytes.length = recvBuffer ∨ ∃ c ∈ commandOf bytes, c ≠ 32

/-! ## Words -/

theorem strtokR_cons (delim c : UInt8) (text : Bytes) :
    strtokR delim (c :: text) = [] ↔ c = delim ∧ strtokR delim text = [] := by
  unfold strtokR
  rw [List.splitOn_cons_eq_if_modifyHead]
  by_cases here : c = delim
  · simp [here]
  · obtain ⟨first, more, split⟩ := List.exists_cons_of_ne_nil (List.splitOn_ne_nil delim text)
    simp [here, split]

theorem strtokR_eq_nil (delim : UInt8) (text : Bytes) :
    strtokR delim text = [] ↔ ∀ c ∈ text, c = delim := by
  induction text with
  | nil => simp [strtokR]
  | cons c text ih =>
      rw [strtokR_cons, ih]
      simp

/-! ## Commands -/

section Server
variable {daemon : Daemon}

theorem argvAt_lt {argv : List Bytes} {element : Nat} (inside : element < argv.length) :
    argvAt argv element = .ok argv[element] := by
  unfold argvAt
  rw [List.getElem?_eq_getElem inside]

/-- A command with a name uses no element that is not set. -/
theorem callback_safe (daemon : Daemon) (command : Command) {argv : List Bytes} (named : argv ≠ []) :
    ∃ r, callback daemon command argv = .ok r := by
  have positive := List.length_pos_iff.mpr named
  cases command with
  | tableDump =>
      unfold callback
      by_cases two : argv.length ≠ 2
      · exact ⟨-1, if_pos two⟩
      · simp only [if_neg two, argvAt_lt (show 1 < argv.length by omega)]
        exact ⟨_, rfl⟩
  | greylistDump => exact ⟨_, rfl⟩
  | greylistPass =>
      unfold callback
      by_cases four : argv.length ≠ 4
      · simp only [if_pos four, argvAt_lt positive]
        exact ⟨_, rfl⟩
      · simp only [if_neg four, argvAt_lt (show 1 < argv.length by omega),
          argvAt_lt (show 2 < argv.length by omega), argvAt_lt (show 3 < argv.length by omega)]
        exact ⟨_, rfl⟩
  | help =>
      unfold callback
      simp only [argvAt_lt positive]
      exact ⟨_, rfl⟩
  | quit => exact ⟨_, rfl⟩
  | dummy => exact ⟨_, rfl⟩

theorem serverExecCmd_safe_iff (cmd : Bytes) :
    (∃ r, serverExecCmd daemon cmd = .ok r) ↔ ∃ c ∈ cmd, c ≠ 32 := by
  unfold serverExecCmd
  simp only []
  by_cases blank : strtokR 32 cmd = []
  · -- the first element of `argv` is looked up all the same
    have unset : argvAt [] 0 = .error (.unset 0) := rfl
    have few : ¬ ([] : List Bytes).length = maxArgs := by decide
    rw [blank, List.take_nil, if_neg few, unset]
    constructor
    · rintro ⟨r, ran⟩
      cases ran
    · rintro ⟨c, member, word⟩
      exact (word ((strtokR_eq_nil 32 cmd).mp blank c member)).elim
  · have word : ∃ c ∈ cmd, c ≠ 32 := by
      by_contra none'
      push Not at none'
      exact blank ((strtokR_eq_nil 32 cmd).mpr none')
    refine iff_of_true ?_ word
    have named : (strtokR 32 cmd).take maxArgs ≠ [] := by
      simpa [maxArgs] using blank
    have positive := List.length_pos_iff.mpr named
    by_cases full : ((strtokR 32 cmd).take maxArgs).length = maxArgs
    · exact ⟨-1, if_pos full⟩
    · obtain ⟨r, ran⟩ := callback_safe daemon
        (lookup daemon ((strtokR 32 cmd).take maxArgs)[0]) named
      rw [if_neg full, argvAt_lt positive]
      refine ⟨r, ?_⟩
      change (callback daemon _ _ >>= fun r => _) = _
      rw [ran]
      change (if r = -1 then _ else _) = _
      split
      · rfl
      · rfl

/-- The loop stops at the last byte that is no newline; if there is none it goes on in
front of the buffer. -/
theorem stripNewlines_eq (bytes : Bytes) : ∀ back,
    stripNewlines (bytes ++ back) bytes.length =
      if bytes.rdropWhile (· = 10) = [] then .error (.outside (-1))
      else .ok (bytes.rdropWhile (· = 10)).length := by
  induction bytes using List.reverseRecOn with
  | nil => intro back; rfl
  | append_singleton front c ih =>
      intro back
      have last : (front ++ [c] ++ back)[front.length]? = some c := by simp
      rw [List.length_append, List.length_singleton, stripNewlines, last]
      by_cases newline : c = 10
      · subst newline
        rw [if_pos rfl, List.append_assoc, ih]
        simp
      · rw [if_neg (by simpa using newline)]
        simp [newline]

theorem take_rdropWhile (bytes : Bytes) (p : UInt8 → Bool) :
    bytes.take (bytes.rdropWhile p).length = bytes.rdropWhile p :=
  (List.prefix_iff_eq_take.mp (List.rdropWhile_prefix p bytes)).symm

/-- A request is handled without a fault if and only if there is a word in it. -/
theorem request_is_safe_iff (daemon : Daemon) (read : Read) :
    (∃ r, serverRequest daemon read = .ok r) ↔ read.HasWord := by
  cases read with
  | error => exact iff_of_true ⟨-1, rfl⟩ trivial
  | data bytes fits =>
      unfold serverRequest Read.HasWord
      by_cases full : bytes.length = recvBuffer
      · exact iff_of_true ⟨-1, if_pos full⟩ (.inl full)
      · have stripped := stripNewlines_eq bytes []
        rw [List.append_nil] at stripped
        simp only [if_neg full, stripped]
        by_cases empty : bytes.rdropWhile (· = 10) = []
        · rw [if_pos empty]
          constructor
          · rintro ⟨r, ran⟩
            cases ran
          · rintro (same | ⟨c, member, -⟩)
            · exact (full same).elim
            · rw [commandOf, empty] at member
              cases member
        · have some' : (bytes.rdropWhile (· = 10)).length ≠ 0 := by
            simpa using empty
          rw [if_neg empty]
          change (∃ r, (if (bytes.rdropWhile (· = 10)).length = 0 then _ else _) = Except.ok r) ↔ _
          rw [if_neg some', take_rdropWhile]
          constructor
          · intro safe
            exact .inr ((serverExecCmd_safe_iff _).mp safe)
          · rintro (same | word)
            · exact (full same).elim
            · exact (serverExecCmd_safe_iff _).mpr word

/-- A daemon whose tables are empty. -/
def idleDaemon : Daemon where
  dbtDump _ := 0
  greylistDump := 0
  greylistPass _ _ _ := 0
  output := true
  debug := false

/-- A client that closes the connection makes the daemon read in front of the buffer, and
one that sends spaces makes it look up a word that it has not found. -/
theorem empty_requests_fault :
    serverRequest idleDaemon (.data [] (by decide)) = .error (.outside (-1)) ∧
      serverRequest idleDaemon (.data (cstr "  \n") (by decide)) = .error (.unset 0) ∧
      ¬ ∃ r, serverRequest idleDaemon (.data [] (by decide)) = .ok r := by
  have outside : serverRequest idleDaemon (.data [] (by decide)) = .error (.outside (-1)) := rfl
  have unset : serverRequest idleDaemon (.data (cstr "  \n") (by decide)) = .error (.unset 0) := by
    decide
  refine ⟨outside, unset, ?_⟩
  rintro ⟨r, ran⟩
  rw [outside] at ran
  cases ran

end Server

end Mopher.Request
