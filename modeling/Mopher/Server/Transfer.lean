import Mopher.Lib.Duplex
import Mopher.Sql.Record
import Mopher.Server.Receive
import Mopher.Server.Request

/-!
# A command and its answer

Model of the conversation between `mopherctl` and the control server in `server.c`: the
client's `server_cmd` and `server_data_cmd`, and the daemon's `server_request` with the
commands that answer it.  Both are parties on one connection.  A dump is declared, agreed
to, and sent; the daemon's `server_ok` stands right behind it in the stream.

Bytes of a buffer on the stack that no `read` has written are in `Stack`.  Output that
the source ignores is sent all the same; a write fails only if the other side is gone.
-/

set_option autoImplicit false

namespace Mopher.Transfer

open Duplex
open Regdom (strtokR)
open Receive (onStack atoi serverCheck maxBuffer)
open Request (recvBuffer maxArgs stripNewlines)

def newline : UInt8 := 10

/-- What the commands of the daemon ask; `none` is the -1 of `dbt_dump` and
`greylist_dump`. -/
structure Tables where
  dbtDump : Bytes → Option Bytes
  greylistDump : Option Bytes
  greylistPass : Bytes → Bytes → Bytes → Int
  debug : Bool

/-- What is in the buffers that are not initialised, and whether `malloc` succeeds. -/
structure Stack where
  size : Bytes
  check : Bytes
  agree : Bytes
  allocates : Bool

/-! ## The daemon -/

inductive ServerState where
  | select
  | reply (line : Bytes) (next : ServerState)
  | declare (dump : Bytes) (lenient : Bool)
  | agree (dump : Bytes) (lenient : Bool)
  | send (dump : Bytes) (lenient : Bool)
  | finish (r : Int)
  | closed
  | crashed
deriving Repr, DecidableEq

section Server
variable (tables : Tables)

/-- The daemon of `Request`. -/
def Tables.daemon : Request.Daemon where
  dbtDump name := ((tables.dbtDump name).elim (-1) fun dump => dump.length)
  greylistDump := tables.greylistDump.elim (-1) fun dump => dump.length
  greylistPass := tables.greylistPass
  output := true
  debug := tables.debug

/-- `server_table_empty`, with its NUL. -/
def serverTableEmpty : Bytes := cstr "table is empty\n" ++ [0]

/-- The switch of `server_table_dump` and `server_greylist_dump`. -/
def dumping : Option Bytes → ServerState
  | none => .finish (-1)
  | some [] => .declare serverTableEmpty true
  | some (first :: rest) => .declare (first :: rest) false

/-- `server_greylist_pass`. -/
def serverGreylistPass : List Bytes → ServerState
  | [_, source, sender, recipient] =>
      match tables.greylistPass source sender recipient with
      | -1 => .finish (-1)
      | 0 => .reply (cstr "Not found") (.finish 1)
      | _ => .finish 1
  | argv => .reply (cstr "Usage: " ++ argv.headD [] ++ cstr " source from rcpt") (.finish (-1))

/-- `sf_name` and `sf_help` of `server_functions`. -/
def serverHelpLines : List Bytes :=
  [cstr "table_dump\tDump table", cstr "greylist_dump\tDump greylist tuples",
    cstr "greylist_pass\tLet tuple pass greylistung", cstr "help\tPrint this message",
    cstr "quit\tclose connection"] ++
    if tables.debug then [cstr "dummy\tfunction dummy"] else []

/-- `server_help`. -/
def serverHelp (name : Bytes) : ServerState :=
  let help := .reply (cstr "HELP:") ((serverHelpLines tables).foldr .reply (.finish 1))
  if name.take 4 = cstr "help" then help else .reply (cstr "Unknown command") help

/-- `sf_callback`. -/
def callback (name : Bytes) (argv : List Bytes) : Request.Command → ServerState
  | .tableDump =>
      match argv with
      | [_, table] => dumping (tables.dbtDump table)
      | _ => .finish (-1)
  | .greylistDump => dumping tables.greylistDump
  | .greylistPass => serverGreylistPass tables argv
  | .help => serverHelp tables name
  | .quit => .finish 0
  | .dummy => .finish 1

/-- `server_exec_cmd` up to the first output of the command. -/
def serverExecCmd (cmd : Bytes) : ServerState :=
  let argv := (strtokR 32 cmd).take maxArgs
  if argv.length = maxArgs then .reply (cstr "Too many arguments") .closed
  else
    match argv with
    | [] => .crashed
    | name :: _ => callback tables name argv (Request.lookup tables.daemon name)

/-- `server_request` on what it has read. -/
def serverRequest : Option Bytes → ServerState
  | none => .closed
  | some bytes =>
      if bytes.length = recvBuffer then .closed
      else
        match stripNewlines bytes bytes.length with
        | .error _ => .crashed
        | .ok len =>
            if len = 0 then .closed
            else serverExecCmd tables ((bytes.take len).takeWhile (· ≠ 0))

/-- The end of `server_exec_cmd`. -/
def result (r : Int) : Bytes :=
  if r = 0 then cstr "CLOSE" ++ [newline] else if r = -1 then cstr "ERROR" ++ [newline] else cstr "OK"

/-- What becomes of the dump after `server_output`; of an empty table it does not matter. -/
def output (lenient succeeded : Bool) : ServerState :=
  if succeeded || lenient then .finish 1 else .finish (-1)

/-- `server_check` on what it has read. -/
def checked (junk : Bytes) : Option Bytes → Bool
  | none => false
  | some bytes => serverCheck junk (.data bytes) = 0

/-- The line that declares a size. -/
def sizeLine (size : Nat) : Bytes := intText size ++ [newline]

def serverAct (stack : Stack) : ServerState → Action ServerState
  | .select => .read recvBuffer (serverRequest tables)
  | .reply line next => .write (line ++ [newline]) fun _ => next
  | .declare dump lenient =>
      .write (sizeLine dump.length) fun written =>
        if written then .agree dump lenient else output lenient false
  | .agree dump lenient =>
      .read 2 fun got => if checked stack.agree got then .send dump lenient else output lenient false
  | .send dump lenient => .write dump fun written => output lenient written
  | .finish r => .write (result r) fun _ => if r = 0 ∨ r = -1 then .closed else .select
  | .closed => .halt true
  | .crashed => .halt false

end Server

/-! ## The client -/

inductive ClientState where
  | request (line : Bytes) (data : Bool)
  | size
  | acknowledge (size : Int)
  | receive (size : Int) (buffer : Bytes)
  | answer (buffer : Option Bytes)
  | done (status : Int) (buffer : Option Bytes)
  | crashed
deriving Repr, DecidableEq

/-- `vsnprintf` with no arguments; there is no result if a conversion asks for one. -/
def format : Bytes → Option Bytes
  | [] => some []
  | [c] => if c = 37 then none else some [c]
  | c :: d :: rest =>
      if c = 37 then if d = 37 then (format rest).map (37 :: ·) else none
      else (format (d :: rest)).map (c :: ·)

/-- `server_cmd` or `server_data_cmd`: the command is the format of `server_reply`. -/
def clientStart (cmd : Bytes) (data : Bool) : ClientState :=
  match format cmd with
  | none => .crashed
  | some line => if recvBuffer - 1 ≤ line.length then .done (-1) none else .request line data

/-- The test of the loop in `server_data_cmd`. -/
def receiving (size : Int) (buffer : Bytes) : ClientState :=
  if buffer.length < size then .receive size buffer else .answer (some buffer)

/-- The declared size is looked at. -/
def clientSize (stack : Stack) : Option Bytes → ClientState
  | none => .done (-1) none
  | some bytes =>
      let size := atoi (onStack stack.size bytes recvBuffer)
      if size < 0 ∨ maxBuffer < size ∨ stack.allocates = false then .done (-1) none
      else .acknowledge size

def clientAct (stack : Stack) : ClientState → Action ClientState
  | .request line data =>
      .write (line ++ [newline]) fun written =>
        if written then (if data then .size else .answer none) else .done (-1) none
  | .size => .read recvBuffer (clientSize stack)
  | .acknowledge size =>
      .write (cstr "OK") fun written => if written then receiving size [] else .done (-1) none
  | .receive size buffer =>
      .read (size - buffer.length).toNat fun got =>
        match got with
        | none => .done (-1) none
        | some bytes => receiving size (buffer ++ bytes)
  | .answer buffer =>
      .read 2 fun got => if checked stack.check got then .done 0 buffer else .done (-1) buffer
  | .done _ _ => .halt true
  | .crashed => .halt false

/-- The two on a connection on which nothing has been sent. -/
def connected (cmd : Bytes) (data : Bool) : Config ClientState ServerState :=
  ⟨clientStart cmd data, .select, .empty, .empty⟩

/-! ## What is read is what was written -/

theorem checked_ok (junk : Bytes) : checked junk (some (cstr "OK")) = true := by
  have two : onStack junk (cstr "OK") 2 = cstr "OK" := List.take_left' rfl
  rw [checked, serverCheck, two]
  rfl

theorem atoi_line {digits back : Bytes} (all : ∀ c ∈ digits, isDigit c = true) {n : Nat}
    (value : digits.foldl (fun n digit => 10 * n + (digit.toNat - 48)) 0 = n) (small : n < 2 ^ 31)
    (some' : digits ≠ []) : atoi (digits ++ newline :: back) = n := by
  have notNul : ∀ c ∈ digits, decide (c ≠ 0) = true := by
    intro c member
    refine decide_eq_true ?_
    rintro rfl
    exact absurd (all 0 member) (by decide)
  have line : (digits ++ newline :: back).takeWhile (· ≠ 0) =
      digits ++ newline :: back.takeWhile (· ≠ 0) := by
    rw [List.takeWhile_append_of_pos notNul]
    rfl
  have read : (strtol (digits ++ newline :: back.takeWhile (· ≠ 0))).1 = n := by
    obtain ⟨first, rest, rfl⟩ := List.exists_cons_of_ne_nil some'
    have digit := all first List.mem_cons_self
    have start : ((first :: rest) ++ newline :: back.takeWhile (· ≠ 0)).dropWhile isSpace =
        first :: (rest ++ newline :: back.takeWhile (· ≠ 0)) := by
      rw [List.cons_append, List.dropWhile_cons, Sql.isSpace_of_isDigit digit]
      rfl
    have whole : (first :: (rest ++ newline :: back.takeWhile (· ≠ 0))).takeWhile isDigit =
        first :: rest := by
      rw [← List.cons_append, List.takeWhile_append_of_pos all,
        List.takeWhile_cons_of_neg (by decide), List.append_nil]
    have fits : ¬ (n : Int) > longMax := by
      unfold longMax
      omega
    unfold strtol
    rw [start]
    simp only []
    split
    · rename_i same
      cases same
      cases digit
    · rename_i same
      cases same
      cases digit
    · simp only [whole, value, Bool.false_eq_true, if_false, fits]
  rw [atoi, line, read]
  exact CBuffer.cInt_of_bounds (by omega) (by omega)

theorem sizeLine_eq (size : Nat) : sizeLine size = Sql.digitBytes size ++ [newline] := by
  rw [sizeLine, Sql.intText_eq, if_pos (by omega), Int.toNat_natCast]

theorem sizeLine_length {size : Nat} (small : (size : Int) ≤ maxBuffer) :
    (sizeLine size).length ≤ 9 := by
  have digits : (Nat.toDigits 10 size).length ≤ 8 := by
    refine (Nat.length_toDigits_le_iff (by decide) (by decide)).mpr ?_
    unfold maxBuffer at small
    omega
  rw [sizeLine_eq, List.length_append, Sql.digitBytes, List.length_map]
  exact Nat.add_le_add_right digits 1

/-- The declared size is the one that the client sees. -/
theorem clientSize_sizeLine {stack : Stack} {size : Nat} (small : (size : Int) ≤ maxBuffer)
    (allocates : stack.allocates = true) :
    clientSize stack (some (sizeLine size)) = .acknowledge size := by
  have digitsOf : Sql.digitBytes size ≠ [] := by
    unfold Sql.digitBytes
    simp
  have seen : atoi (onStack stack.size (sizeLine size) recvBuffer) = size := by
    have short := sizeLine_length small
    have room : (sizeLine size).length ≤ recvBuffer := Nat.le_trans short (by decide)
    rw [onStack, List.take_append, List.take_of_length_le room, sizeLine_eq, List.append_assoc,
      List.singleton_append]
    refine atoi_line (Sql.isDigit_digitBytes size) (Sql.digitBytes_value size) ?_ digitsOf
    unfold maxBuffer at small
    omega
  have accepted : ¬ ((size : Int) < 0 ∨ maxBuffer < (size : Int) ∨ stack.allocates = false) := by
    rw [allocates]
    simp only [Bool.true_eq_false, or_false]
    omega
  simp only [clientSize, seen, if_neg accepted]

/-! ## The course of a transfer -/

theorem receiving_reads (stack : Stack) (size : Int) (buffer : Bytes) :
    ∃ max got, clientAct stack (receiving size buffer) = .read max got := by
  unfold receiving
  split
  · exact ⟨_, _, rfl⟩
  · exact ⟨_, _, rfl⟩

section Dump
variable {tables : Tables} {stack : Stack} {whole : Nat} {line dump : Bytes} {lenient : Bool}

/-- Where the two can be, and how many steps are left at most. -/
inductive Course (line dump : Bytes) (lenient : Bool) : Nat → Config ClientState ServerState → Prop where
  | start : Course line dump lenient (2 * dump.length + 14)
      ⟨.request line true, .select, .empty, .empty⟩
  | asked {p : Pipe} : Carries (line ++ [newline]) p →
      Course line dump lenient (2 * dump.length + 12 + p.flight.length) ⟨.size, .select, .empty, p⟩
  | looked : Course line dump lenient (2 * dump.length + 11)
      ⟨.size, .declare dump lenient, .empty, .empty⟩
  | declared {p : Pipe} : Carries (sizeLine dump.length) p →
      Course line dump lenient (2 * dump.length + 9 + p.flight.length)
        ⟨.size, .agree dump lenient, p, .empty⟩
  | agreed : Course line dump lenient (2 * dump.length + 8)
      ⟨.acknowledge dump.length, .agree dump lenient, .empty, .empty⟩
  | acknowledged {p : Pipe} : Carries (cstr "OK") p →
      Course line dump lenient (2 * dump.length + 6 + p.flight.length)
        ⟨receiving dump.length [], .agree dump lenient, .empty, p⟩
  | checked : Course line dump lenient (2 * dump.length + 5)
      ⟨receiving dump.length [], .send dump lenient, .empty, .empty⟩
  | sent {k : Nat} {p : Pipe} : k ≤ dump.length → p.arrived ++ p.flight.flatten = dump.drop k →
      Course line dump lenient (p.flight.length + (dump.length - k) + 4)
        ⟨receiving dump.length (dump.take k), .finish 1, p, .empty⟩
  | answered {k : Nat} {segments : List Bytes} {arrived : Bytes} : k ≤ dump.length →
      arrived ++ segments.flatten = dump.drop k →
      Course line dump lenient (segments.length + 1 + (dump.length - k) + 2)
        ⟨receiving dump.length (dump.take k), .select, ⟨segments ++ [cstr "OK"], arrived⟩, .empty⟩
  | landed {k : Nat} : k ≤ dump.length →
      Course line dump lenient (dump.length - k + 2)
        ⟨receiving dump.length (dump.take k), .select, ⟨[], dump.drop k ++ cstr "OK"⟩, .empty⟩
  | done : Course line dump lenient 1 ⟨.done 0 (some dump), .select, .empty, .empty⟩
  | parted {s : ServerState} : s = .closed ∨ s = .crashed →
      Course line dump lenient 0 ⟨.done 0 (some dump), s, .empty, .empty⟩

theorem receiving_all : receiving dump.length (dump.take dump.length) = .answer (some dump) := by
  rw [List.take_length, receiving, if_neg (by omega)]

/-- What the client makes of bytes of the dump. -/
theorem receives {k : Nat} {p : Pipe} {rest : Bytes} {s' : ClientState}
    {inward' outward outward' : Pipe} {closed : Bool} (opened : closed = false)
    (before : k ≤ dump.length) (content : p.arrived ++ rest = dump.drop k)
    (move : Move (clientAct stack) whole closed
      (receiving dump.length (dump.take k), p, outward) (s', inward', outward')) :
    k < k + p.arrived.length ∧ k + p.arrived.length ≤ dump.length ∧
      s' = receiving dump.length (dump.take (k + p.arrived.length)) ∧ inward' = ⟨p.flight, []⟩ ∧
      outward' = outward ∧ rest = dump.drop (k + p.arrived.length) := by
  have lengths := congrArg List.length content
  rw [List.length_append, List.length_drop] at lengths
  by_cases missing : k < dump.length
  · have count : (dump.take k).length = k := List.length_take_of_le before
    have waiting : receiving dump.length (dump.take k) = .receive dump.length (dump.take k) := by
      rw [receiving, if_pos (by omega)]
    rw [waiting] at move
    obtain ⟨there, rfl, rfl, rfl⟩ := move.of_read_open rfl opened
    have positive := List.length_pos_iff.mpr there
    have asked : ((dump.length : Int) - (dump.take k).length).toNat = dump.length - k := by omega
    have whole' : p.arrived.take (dump.length - k) = p.arrived := List.take_of_length_le (by omega)
    have front : p.arrived = (dump.drop k).take p.arrived.length := by
      rw [← content, List.take_left]
    refine ⟨by omega, by omega, ?_, ?_, rfl, ?_⟩
    · simp only [asked, whole']
      rw [List.take_add, ← front]
    · rw [asked, Pipe.take, List.drop_eq_nil_of_le (by omega)]
    · rw [← List.drop_drop, ← content, List.drop_left]
  · -- the dump is complete, and nothing else has arrived
    obtain rfl : k = dump.length := by omega
    rw [receiving_all] at move
    obtain ⟨there, _⟩ := move.of_read_open rfl opened
    have positive := List.length_pos_iff.mpr there
    omega

/-- One step while the daemon is done with the dump, but not with its answer. -/
theorem Course.keep_sent {k : Nat} {p : Pipe} {c' : Config ClientState ServerState} (two : 2 ≤ whole)
    (before : k ≤ dump.length) (content : p.arrived ++ p.flight.flatten = dump.drop k)
    (step : Step (clientAct stack) (serverAct tables stack) whole
      ⟨receiving dump.length (dump.take k), .finish 1, p, .empty⟩ c') :
    ∃ m < p.flight.length + (dump.length - k) + 4, Course line dump lenient m c' := by
  obtain ⟨max, got, reads⟩ := receiving_reads stack dump.length (dump.take k)
  obtain ⟨s', inward, outward, move, rfl⟩ | ⟨t', inward, outward, move, rfl⟩ |
    ⟨segment, rest, flies, rfl⟩ | ⟨_, _, flies, _⟩ := step.cases
  · obtain ⟨more, inside, rfl, rfl, rfl, others⟩ := receives (Action.open_of_write rfl) before content move
    exact ⟨_, by simp only; omega, .sent inside (by simpa using others)⟩
  · obtain ⟨rfl, segments, cut, rfl, rfl⟩ := move.of_write_open rfl (Action.open_of_read reads)
    rw [cut.whole (by decide) two]
    exact ⟨_, by omega, .answered before content⟩
  · rw [flies]
    refine ⟨_, ?_, .sent before ?_⟩
    · simp only [List.length_cons]
      omega
    · rw [← content, flies]
      simp
  · cases flies

/-- One step while the answer is behind the rest of the dump. -/
theorem Course.keep_answered {k : Nat} {segments : List Bytes} {arrived : Bytes}
    {c' : Config ClientState ServerState} (before : k ≤ dump.length)
    (content : arrived ++ segments.flatten = dump.drop k)
    (step : Step (clientAct stack) (serverAct tables stack) whole
      ⟨receiving dump.length (dump.take k), .select, ⟨segments ++ [cstr "OK"], arrived⟩, .empty⟩ c') :
    ∃ m < segments.length + 1 + (dump.length - k) + 2, Course line dump lenient m c' := by
  obtain ⟨max, got, reads⟩ := receiving_reads stack dump.length (dump.take k)
  obtain ⟨s', inward, outward, move, rfl⟩ | ⟨t', inward, outward, move, rfl⟩ |
    ⟨segment, rest, flies, rfl⟩ | ⟨_, _, flies, _⟩ := step.cases
  · obtain ⟨more, inside, rfl, rfl, rfl, others⟩ :=
      receives (p := ⟨segments ++ [cstr "OK"], arrived⟩) (Action.open_of_read rfl) before content move
    have shorter : segments.length + 1 + (dump.length - (k + arrived.length)) + 2 <
        segments.length + 1 + (dump.length - k) + 2 := by
      have more' : k < k + arrived.length := more
      have inside' : k + arrived.length ≤ dump.length := inside
      omega
    exact ⟨_, shorter, .answered inside (by simpa using others)⟩
  · exact absurd rfl (move.of_read_open rfl (Action.open_of_read reads)).1
  · cases segments with
    | nil =>
        cases flies
        rw [List.flatten_nil, List.append_nil] at content
        rw [content]
        exact ⟨_, by simp, .landed before⟩
    | cons first others =>
        cases flies
        refine ⟨_, ?_, .answered before ?_⟩
        · simp only [List.length_cons]
          omega
        · simpa using content
  · cases flies

/-- One step once everything has arrived. -/
theorem Course.keep_landed {k : Nat} {c' : Config ClientState ServerState} (before : k ≤ dump.length)
    (step : Step (clientAct stack) (serverAct tables stack) whole
      ⟨receiving dump.length (dump.take k), .select, ⟨[], dump.drop k ++ cstr "OK"⟩, .empty⟩ c') :
    ∃ m < dump.length - k + 2, Course line dump lenient m c' := by
  obtain ⟨max, got, reads⟩ := receiving_reads stack dump.length (dump.take k)
  obtain ⟨s', inward, outward, move, rfl⟩ | ⟨t', inward, outward, move, rfl⟩ | ⟨_, _, flies, _⟩ |
    ⟨_, _, flies, _⟩ := step.cases
  · by_cases missing : k < dump.length
    · have count : (dump.take k).length = k := List.length_take_of_le before
      have left : (dump.drop k).length = dump.length - k := List.length_drop
      have waiting : receiving dump.length (dump.take k) = .receive dump.length (dump.take k) := by
        rw [receiving, if_pos (by omega)]
      rw [waiting] at move
      obtain ⟨there, rfl, rfl, rfl⟩ := move.of_read_open rfl (Action.open_of_read rfl)
      have asked : ((dump.length : Int) - (dump.take k).length).toNat = (dump.drop k).length := by
        omega
      have landed := @Course.landed line dump lenient dump.length (Nat.le_refl _)
      rw [List.drop_length, List.nil_append, List.take_length] at landed
      refine ⟨dump.length - dump.length + 2, by omega, ?_⟩
      simp only [asked, Pipe.take, List.take_left, List.drop_left, List.take_append_drop]
      exact landed
    · obtain rfl : k = dump.length := by omega
      rw [receiving_all] at move
      obtain ⟨there, rfl, rfl, rfl⟩ := move.of_read_open rfl (Action.open_of_read rfl)
      refine ⟨1, by omega, ?_⟩
      have two : (cstr "OK").take 2 = cstr "OK" := rfl
      simp only [List.drop_length, List.nil_append, two, checked_ok, if_true]
      exact .done
  · exact absurd rfl (move.of_read_open rfl (Action.open_of_read reads)).1
  · cases flies
  · cases flies

/-- One step after the client is done: the daemon reads the end of the stream. -/
theorem Course.keep_done {c' : Config ClientState ServerState}
    (step : Step (clientAct stack) (serverAct tables stack) whole
      ⟨.done 0 (some dump), .select, .empty, .empty⟩ c') : Course line dump lenient 0 c' := by
  obtain ⟨s', inward, outward, move, rfl⟩ | ⟨t', inward, outward, move, rfl⟩ | ⟨_, _, flies, _⟩ |
    ⟨_, _, flies, _⟩ := step.cases
  · have halts : clientAct stack (.done 0 (some dump)) = .halt true := rfl
    exact (move.of_halt halts).elim
  · obtain ⟨rfl, ⟨there, _⟩ | ⟨_, rfl, rfl | ⟨_, rfl⟩⟩⟩ := move.of_read rfl
    · exact absurd rfl there
    · exact .parted (.inl rfl)
    · exact .parted (.inr rfl)
  · cases flies
  · cases flies

end Dump

/-! ## Commands that arrive as they were meant -/

/-- A word that neither the format of the client nor the words of the daemon change. -/
structure Word (bytes : Bytes) : Prop where
  some' : bytes ≠ []
  plain : ∀ c ∈ bytes, c ≠ 0 ∧ c ≠ newline ∧ c ≠ 32 ∧ c ≠ 37

instance (bytes : Bytes) : Decidable (Word bytes) :=
  decidable_of_iff (bytes ≠ [] ∧ bytes.all (fun c => c ≠ 0 && c ≠ newline && c ≠ 32 && c ≠ 37) = true)
    ⟨fun ⟨some', plain⟩ => ⟨some', by simpa [List.all_eq_true, and_assoc] using plain⟩,
      fun word => ⟨word.some', by simpa [List.all_eq_true, and_assoc] using word.plain⟩⟩

/-- Words with a space between them. -/
def joined : List Bytes → Bytes
  | [] => []
  | [word] => word
  | word :: next :: words => word ++ 32 :: joined (next :: words)

/-- What the daemon does on these words. -/
def commandAnswer (tables : Tables) : List Bytes → ServerState
  | [] => .crashed
  | name :: args => callback tables name (name :: args) (Request.lookup tables.daemon name)

section Words
variable {words : List Bytes}

theorem joined_eq_intercalate : joined words = [32].intercalate words := by
  induction words with
  | nil => rfl
  | cons word words ih =>
      cases words with
      | nil =>
          rw [List.intercalate_singleton]
          rfl
      | cons next words =>
          rw [joined, ih, List.intercalate_cons_cons, List.append_assoc]
          rfl

theorem strtokR_joined (clean : ∀ word ∈ words, Word word) (some' : words ≠ []) :
    strtokR 32 (joined words) = words := by
  have apart : ∀ word ∈ words, (32 : UInt8) ∉ word := fun word member space =>
    ((clean word member).plain 32 space).2.2.1 rfl
  rw [strtokR, joined_eq_intercalate, List.splitOn_intercalate 32 apart some']
  refine List.filter_eq_self.mpr fun word member => ?_
  exact decide_eq_true (clean word member).some'

theorem mem_joined (clean : ∀ word ∈ words, Word word) :
    ∀ c ∈ joined words, c ≠ 0 ∧ c ≠ newline ∧ c ≠ 37 := by
  induction words with
  | nil =>
      intro c member
      cases member
  | cons word words ih =>
      intro c member
      have inside : c ∈ word ∨ c = 32 ∨ c ∈ joined words := by
        cases words with
        | nil => exact .inl member
        | cons next words =>
            rcases List.mem_append.mp member with here | behind
            · exact .inl here
            · exact .inr (List.mem_cons.mp behind)
      rcases inside with here | rfl | behind
      · obtain ⟨noNul, noNewline, _, noPercent⟩ := (clean word List.mem_cons_self).plain c here
        exact ⟨noNul, noNewline, noPercent⟩
      · decide
      · exact ih (fun word member => clean word (List.mem_cons_of_mem _ member)) c behind

theorem joined_ne_nil (clean : ∀ word ∈ words, Word word) (some' : words ≠ []) :
    joined words ≠ [] := by
  intro empty
  have tokens := strtokR_joined clean some'
  rw [empty] at tokens
  exact some' tokens.symm

theorem format_plain {cmd : Bytes} (plain : ∀ c ∈ cmd, c ≠ 37) : format cmd = some cmd := by
  induction cmd with
  | nil => rfl
  | cons c rest ih =>
      have ordinary := plain c List.mem_cons_self
      have others := ih fun d member => plain d (List.mem_cons_of_mem c member)
      cases rest with
      | nil => rw [format, if_neg ordinary]
      | cons d rest =>
          rw [format, if_neg ordinary, others]
          rfl

/-- The daemon sees the words that the client was given. -/
theorem serverRequest_joined (tables : Tables) (clean : ∀ word ∈ words, Word word)
    (some' : words ≠ []) (short : (joined words).length + 1 < recvBuffer) :
    serverRequest tables (some (joined words ++ [newline])) = serverExecCmd tables (joined words) := by
  have bytes := mem_joined clean
  have filled := joined_ne_nil clean some'
  have kept : (joined words ++ [newline]).rdropWhile (· = 10) = joined words := by
    refine (List.rdropWhile_concat_pos _ _ newline (by decide)).trans ?_
    refine List.rdropWhile_eq_self_iff.mpr fun some'' last => ?_
    exact (bytes _ (List.getLast_mem some'')).2.1 (of_decide_eq_true last)
  have stripped := Request.stripNewlines_eq (joined words ++ [newline]) []
  rw [List.append_nil, kept, if_neg filled] at stripped
  have length : (joined words ++ [newline]).length = (joined words).length + 1 := by simp
  have positive : ¬ (joined words).length = 0 := by simpa using filled
  have text : (joined words).takeWhile (· ≠ 0) = joined words :=
    List.takeWhile_eq_self_iff.mpr fun c member => decide_eq_true (bytes c member).1
  have partial' : ¬ (joined words ++ [newline]).length = recvBuffer := by omega
  unfold serverRequest
  simp only [if_neg partial', stripped, if_neg positive]
  rw [List.take_left, text]

theorem serverExecCmd_few (tables : Tables) (clean : ∀ word ∈ words, Word word) (some' : words ≠ [])
    (few : words.length < maxArgs) : serverExecCmd tables (joined words) = commandAnswer tables words := by
  have argv : (strtokR 32 (joined words)).take maxArgs = words := by
    rw [strtokR_joined clean some', List.take_of_length_le (by omega)]
  unfold serverExecCmd
  simp only [argv, if_neg (show ¬ words.length = maxArgs by omega)]
  cases words with
  | nil => rfl
  | cons name args => rfl

theorem serverExecCmd_many (tables : Tables) (clean : ∀ word ∈ words, Word word) (some' : words ≠ [])
    (many : maxArgs ≤ words.length) :
    serverExecCmd tables (joined words) = .reply (cstr "Too many arguments") .closed := by
  have argc : ((strtokR 32 (joined words)).take maxArgs).length = maxArgs := by
    rw [strtokR_joined clean some', List.length_take_of_le many]
  unfold serverExecCmd
  simp only [if_pos argc]

theorem connected_joined (clean : ∀ word ∈ words, Word word)
    (fits : (joined words).length + 1 < recvBuffer) (data : Bool) :
    connected (joined words) data = ⟨.request (joined words) data, .select, .empty, .empty⟩ := by
  have plain := format_plain fun c member => (mem_joined clean c member).2.2
  unfold connected clientStart
  rw [plain]
  simp only [if_neg (show ¬ recvBuffer - 1 ≤ (joined words).length by omega)]

end Words

/-! ## Dumps -/

/-- What the connection, the client's memory and the command have to be like. -/
structure Orderly (tables : Tables) (stack : Stack) (whole : Nat) (line dump : Bytes)
    (lenient : Bool) : Prop where
  requested : serverRequest tables (some (line ++ [newline])) = .declare dump lenient
  fits : line.length + 1 < recvBuffer
  lines : line.length + 1 ≤ whole
  sizes : 9 ≤ whole
  small : (dump.length : Int) ≤ maxBuffer
  allocates : stack.allocates = true

section Dump
variable {tables : Tables} {stack : Stack} {whole : Nat} {line dump : Bytes} {lenient : Bool}

theorem Course.keep (orderly : Orderly tables stack whole line dump lenient) (n : Nat)
    (c c' : Config ClientState ServerState) (course : Course line dump lenient n c)
    (step : Step (clientAct stack) (serverAct tables stack) whole c c') :
    ∃ m < n, Course line dump lenient m c' := by
  have some' : line ++ [newline] ≠ [] := by simp
  have length : (line ++ [newline]).length = line.length + 1 := by simp
  have short := sizeLine_length orderly.small
  have sized : sizeLine dump.length ≠ [] := by simp [sizeLine]
  have nine := orderly.sizes
  obtain ⟨max, got, reads⟩ := receiving_reads stack dump.length []
  cases course with
  | start =>
      obtain ⟨segments, cut, rfl⟩ := step.of_write rfl rfl
      have carries := carries_send cut some' (by rw [length]; exact orderly.lines)
      refine ⟨_, ?_, .asked carries⟩
      rw [cut.whole some' (by rw [length]; exact orderly.lines)]
      exact Nat.lt_succ_self _
  | asked carries =>
      obtain ⟨one, rfl⟩ | rfl := step.of_carries rfl rfl carries
        (by rw [length]; exact Nat.le_of_lt orderly.fits)
      · exact ⟨_, by rw [one]; exact Nat.lt_succ_self _, .asked .landed⟩
      · rw [orderly.requested]
        exact ⟨_, by omega, .looked⟩
  | looked =>
      obtain ⟨segments, cut, rfl⟩ := step.of_write_right rfl rfl
      have carries := carries_send cut sized (by omega)
      refine ⟨_, ?_, .declared carries⟩
      rw [cut.whole sized (by omega)]
      exact Nat.lt_succ_self _
  | declared carries =>
      have room : (sizeLine dump.length).length ≤ recvBuffer := Nat.le_trans short (by decide)
      obtain ⟨one, rfl⟩ | rfl := step.of_carries_left rfl rfl carries room
      · exact ⟨_, by rw [one]; exact Nat.lt_succ_self _, .declared .landed⟩
      · rw [clientSize_sizeLine orderly.small orderly.allocates]
        exact ⟨_, by omega, .agreed⟩
  | agreed =>
      obtain ⟨segments, cut, rfl⟩ := step.of_write rfl rfl
      have two : (cstr "OK").length ≤ whole := Nat.le_trans (by decide) nine
      have carries := carries_send cut (by decide) two
      refine ⟨_, ?_, .acknowledged carries⟩
      rw [cut.whole (by decide) two]
      exact Nat.lt_succ_self _
  | acknowledged carries =>
      obtain ⟨one, rfl⟩ | rfl := step.of_carries reads rfl carries (Nat.le_refl 2)
      · exact ⟨_, by rw [one]; exact Nat.lt_succ_self _, .acknowledged .landed⟩
      · rw [if_pos (checked_ok stack.agree)]
        exact ⟨_, by omega, .checked⟩
  | checked =>
      obtain ⟨segments, cut, rfl⟩ := step.of_write_right rfl reads
      have few := cut.length_le
      have finished : output lenient true = .finish 1 := rfl
      have sent := @Course.sent line dump lenient 0 ⟨segments, []⟩ (Nat.zero_le _) cut.all
      rw [finished]
      exact ⟨_, by simp only; omega, sent⟩
  | sent before content => exact keep_sent (by omega) before content step
  | answered before content => exact keep_answered before content step
  | landed before => exact keep_landed before step
  | done => exact ⟨0, by omega, keep_done step⟩
  | parted gone =>
      obtain ⟨s', inward, outward, move, rfl⟩ | ⟨t', inward, outward, move, rfl⟩ |
        ⟨_, _, flies, _⟩ | ⟨_, _, flies, _⟩ := step.cases
      · have halts : clientAct stack (.done 0 (some dump)) = .halt true := rfl
        exact (move.of_halt halts).elim
      · rcases gone with rfl | rfl
        · have halts : serverAct tables stack .closed = .halt true := rfl
          exact (move.of_halt halts).elim
        · have halts : serverAct tables stack .crashed = .halt false := rfl
          exact (move.of_halt halts).elim
      · cases flies
      · cases flies

/-- There is a step until the client has the dump. -/
theorem Course.goes (n : Nat) (c : Config ClientState ServerState) (course : Course line dump lenient n c) :
    c.left = .done 0 (some dump) ∨
      ∃ c', Step (clientAct stack) (serverAct tables stack) whole c c' := by
  have answer : ∀ front : Bytes, front ++ cstr "OK" ≠ [] := by
    intro front empty
    exact absurd (List.append_eq_nil_iff.mp empty).2 (by decide)
  cases course with
  | start => exact .inr (Step.can_write whole rfl)
  | asked carries => exact .inr (Step.can_read rfl (carries.there (by simp)))
  | looked => exact .inr (Step.can_write_right whole rfl)
  | declared carries => exact .inr (Step.can_read_left rfl (carries.there (by simp [sizeLine])))
  | agreed => exact .inr (Step.can_write whole rfl)
  | acknowledged carries => exact .inr (Step.can_read rfl (carries.there (by decide)))
  | checked => exact .inr (Step.can_write_right whole rfl)
  | sent before content => exact .inr (Step.can_write_right whole rfl)
  | @answered k segments arrived before content =>
      obtain ⟨max, got, reads⟩ := receiving_reads stack dump.length (dump.take k)
      refine .inr (Step.can_read_left reads ?_)
      simp only [List.flatten_append, List.flatten_singleton, ← List.append_assoc]
      exact answer _
  | @landed k before =>
      obtain ⟨max, got, reads⟩ := receiving_reads stack dump.length (dump.take k)
      refine .inr (Step.can_read_left reads ?_)
      simp only [List.flatten_nil, List.append_nil]
      exact answer _
  | done => exact .inl rfl
  | parted _ => exact .inl rfl

end Dump

/-- What a command that dumps asks for. -/
def Tables.dumped (tables : Tables) : List Bytes → Option Bytes
  | [] => none
  | command :: args =>
      if command = cstr "table_dump" then
        match args with
        | [table] => tables.dbtDump table
        | _ => none
      else if command = cstr "greylist_dump" then tables.greylistDump
      else none

/-- What is sent for a dump. -/
def shown : Bytes → Bytes
  | [] => serverTableEmpty
  | first :: rest => first :: rest

theorem lookup_dump (tables : Tables) :
    Request.lookup tables.daemon (cstr "table_dump") = .tableDump ∧
      Request.lookup tables.daemon (cstr "greylist_dump") = .greylistDump ∧
      Request.lookup tables.daemon (cstr "greylist_pass") = .greylistPass :=
  ⟨rfl, rfl, rfl⟩

theorem dumping_some (dump : Bytes) :
    ∃ lenient, dumping (some dump) = .declare (shown dump) lenient := by
  cases dump with
  | nil => exact ⟨true, rfl⟩
  | cons first rest => exact ⟨false, rfl⟩

section Commands
variable {tables : Tables} {stack : Stack} {whole : Nat} {words : List Bytes} {dump : Bytes}

theorem commandAnswer_dumped (asked : tables.dumped words = some dump) :
    ∃ lenient, commandAnswer tables words = .declare (shown dump) lenient := by
  obtain ⟨table, greylist, _⟩ := lookup_dump tables
  cases words with
  | nil => cases asked
  | cons command args =>
      simp only [Tables.dumped] at asked
      simp only [commandAnswer]
      by_cases isTable : command = cstr "table_dump"
      · rw [if_pos isTable] at asked
        rw [isTable, table]
        match args with
        | [name] =>
            simp only [] at asked
            simp only [callback, asked]
            exact dumping_some dump
        | [] => cases asked
        | _ :: _ :: _ => cases asked
      · rw [if_neg isTable] at asked
        by_cases isGreylist : command = cstr "greylist_dump"
        · rw [if_pos isGreylist] at asked
          rw [isGreylist, greylist, callback, asked]
          exact dumping_some dump
        · rw [if_neg isGreylist] at asked
          cases asked

/-- A daemon with one record in each table. -/
def sampleTables : Tables where
  dbtDump _ := some (cstr "a=1\n")
  greylistDump := none
  greylistPass _ _ _ := 1
  debug := false

def sampleStack : Stack := ⟨cstr "999", [], [], true⟩

end Commands

end Mopher.Transfer
