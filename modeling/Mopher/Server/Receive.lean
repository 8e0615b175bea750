import Mopher.Lib.CBuffer
import Mopher.Eval.VarOps

/-!
# Receiving a dump

Model of `server_data_cmd` in `server.c`, with which `mopherctl` reads a dump whose size
the daemon has declared.  The loop adds up what `read` returns, and `read` returns 0
for ever once the daemon has closed the connection: the loop goes on until the last
byte has come, however the dump ends.
-/

set_option autoImplicit false

namespace Mopher.Receive

open CBuffer

def recvBuffer : Nat := 4096

def maxBuffer : Int := 10000000

/-- What one `read` returns; no bytes are an end of file. -/
inductive Read where
  | error
  | data (bytes : Bytes)

def Read.bytes : Read → Bytes
  | .error => []
  | .data bytes => bytes

/-- What the peer makes of each read; a connection that is closed stays closed. -/
structure Peer where
  answers : Nat → Read
  closed : ∀ k, answers k = .data [] → answers (k + 1) = .data []

/-- The peer after the first read. -/
def Peer.next (peer : Peer) : Peer where
  answers k := peer.answers (k + 1)
  closed k ends := peer.closed (k + 1) ends

/-- The bytes of the first reads. -/
def Peer.stream (peer : Peer) : Nat → Bytes
  | 0 => []
  | k + 1 => (peer.answers 0).bytes ++ peer.next.stream k

/-- How `server_data_cmd` ends, with what is in the allocated buffer. -/
structure Outcome where
  status : Int
  buffer : Writes

/-- The loop, with what was completed; it makes at most `fuel` tests.  `none` in the
end is a read that failed. -/
def receiveLoop (size : Int) : Nat → Peer → Int → Writes → Option (Option (Int × Writes))
  | 0, _, _, _ => none
  | fuel + 1, peer, completed, buffer =>
      if completed < size then
        match peer.answers 0 with
        | .error => some none
        | .data bytes =>
            -- no more is read than was asked for
            let bytes := bytes.take (size - completed).toNat
            receiveLoop size fuel peer.next (completed + bytes.length) (puts buffer completed bytes)
      else some (some (completed, buffer))

/-- A buffer on the stack after a read. -/
def onStack (junk bytes : Bytes) (size : Nat) : Bytes := (bytes ++ junk.drop bytes.length).take size

/-- `atoi` on the text that a buffer starts with. -/
def atoi (buffer : Bytes) : Int := cInt (strtol (buffer.takeWhile (· ≠ 0))).1

/-- `server_check`. -/
def serverCheck (junk : Bytes) : Read → Int
  | .error => -1
  | .data bytes => if onStack junk bytes 2 = cstr "OK" then 0 else 1

/-- Everything outside of `server_data_cmd` that it depends on: whether the command and
the acknowledgement could be sent, what is read before, in and after the loop, what is
on the stack, and whether `malloc` succeeds. -/
structure Call where
  replied : Bool
  first : Read
  junk : Bytes
  allocated : Bool
  acknowledged : Bool
  peer : Peer
  last : Read
  lastJunk : Bytes

/-- The declared size, if `server_data_cmd` comes to the loop. -/
def Call.declared (call : Call) : Option Int :=
  if !call.replied then none
  else
    match call.first with
    | .error => none
    | .data bytes =>
        let size := atoi (onStack call.junk bytes recvBuffer)
        if size < 0 ∨ maxBuffer < size then none
        else if call.allocated && call.acknowledged then some size
        else none

/-- `server_data_cmd`; there is no result if the loop has more than `fuel` turns. -/
def serverDataCmd (fuel : Nat) (call : Call) : Option Outcome :=
  match call.declared with
  | none => some ⟨-1, untouched⟩
  | some size =>
      match receiveLoop size fuel call.peer 0 untouched with
      | none => none
      | some none => some ⟨-1, untouched⟩
      | some (some (completed, buffer)) =>
          let buffer := put buffer completed 0
          if serverCheck call.lastJunk call.last ≠ 0 then some ⟨-1, buffer⟩ else some ⟨0, buffer⟩

/-! ## What is expected -/

/-- The call ends, with 0 only if as many bytes as were declared are in the buffer, and
with -1 otherwise. -/
structure Ends (call : Call) : Prop where
  terminates : ∃ fuel, (serverDataCmd fuel call).isSome
  status : ∀ fuel outcome, serverDataCmd fuel call = some outcome →
    outcome.status = 0 ∨ outcome.status = -1
  complete : ∀ fuel outcome, serverDataCmd fuel call = some outcome → outcome.status = 0 →
    ∃ size k, call.declared = some size ∧ size ≤ (call.peer.stream k).length ∧
      Within outcome.buffer (size + 1) ∧
      HoldsText outcome.buffer ((call.peer.stream k).take size.toNat)

/-- No end of file comes before the declared number of bytes or a read that fails. -/
def NoEarlyEnd (peer : Peer) (size : Int) : Prop :=
  ∀ k, (∀ i < k, peer.answers i ≠ .error) → (peer.stream k).length < size →
    peer.answers k ≠ .data []

/-! ## The loop -/

section Loop
variable {size : Int}

theorem NoEarlyEnd.next {peer : Peer} {completed : Int} {bytes : Bytes}
    (noEnd : NoEarlyEnd peer (size - completed)) (read : peer.answers 0 = .data bytes) :
    NoEarlyEnd peer.next (size - (completed + (bytes.take (size - completed).toNat).length)) := by
  intro k noError missing
  rw [List.length_take] at missing
  refine noEnd (k + 1) ?_ ?_
  · intro i before
    cases i with
    | zero =>
        rw [read]
        exact fun same => by cases same
    | succ i => exact noError i (by omega)
  · rw [Peer.stream, read, Read.bytes, List.length_append]
    push_cast
    omega

/-- What a read leaves out is beyond the size. -/
theorem take_append_take {done bytes rest : Bytes} {n : Nat} (room : done.length ≤ n) :
    ((done ++ bytes.take (n - done.length)) ++ rest).take n = (done ++ (bytes ++ rest)).take n := by
  by_cases short : bytes.length ≤ n - done.length
  · rw [List.take_of_length_le short, List.append_assoc]
  · have filled : (done ++ bytes.take (n - done.length)).length = n := by
      rw [List.length_append, List.length_take]
      omega
    rw [List.take_append_of_le_length (by omega), List.take_of_length_le (by omega),
      List.take_append, List.take_of_length_le room, List.take_append_of_le_length (by omega)]

/-- What the loop leaves, if it ends: a whole dump behind what was there. -/
theorem receiveLoop_complete (fuel : Nat) : ∀ (peer : Peer) (completed : Int) (buffer : Writes)
    (done : Bytes) (final : Int) (buffer' : Writes),
    completed = done.length → completed ≤ size → Within buffer size → Shows buffer 0 done →
    receiveLoop size fuel peer completed buffer = some (some (final, buffer')) →
    ∃ k, final = size ∧ size ≤ completed + (peer.stream k).length ∧ Within buffer' size ∧
      Shows buffer' 0 ((done ++ peer.stream k).take size.toNat) := by
  induction fuel with
  | zero =>
      intro peer completed buffer done final buffer' _ _ _ _ ran
      cases ran
  | succ fuel ih =>
      intro peer completed buffer done final buffer' count room within shown ran
      unfold receiveLoop at ran
      by_cases missing : completed < size
      · rw [if_pos missing] at ran
        cases read : peer.answers 0 with
        | error =>
            rw [read] at ran
            cases ran
        | data bytes =>
            rw [read] at ran
            simp only [] at ran
            have taken : ((bytes.take (size - completed).toNat).length : Int) ≤ size - completed := by
              rw [List.length_take]
              omega
            have shown' : Shows (puts buffer completed (bytes.take (size - completed).toNat)) 0
                (done ++ bytes.take (size - completed).toNat) := by
              refine shows_append.mpr ⟨shown.puts (.inl (by omega)), ?_⟩
              rw [Int.zero_add, ← count]
              exact shows_puts
            obtain ⟨k, full, enough, within', whole⟩ := ih peer.next _ _
              (done ++ bytes.take (size - completed).toNat) final buffer'
              (by rw [List.length_append]; push_cast; omega) (by omega)
              (within.puts (by omega) (by omega)) shown' ran
            refine ⟨k + 1, full, ?_, within', ?_⟩
            · rw [Peer.stream, read, Read.bytes, List.length_append]
              rw [List.length_take] at enough
              push_cast at enough ⊢
              omega
            · have asked : (size - completed).toNat = size.toNat - done.length := by omega
              rw [asked, take_append_take (by omega)] at whole
              rw [Peer.stream, read]
              exact whole
      · rw [if_neg missing] at ran
        cases ran
        refine ⟨0, by omega, by simp [Peer.stream]; omega, within, ?_⟩
        rw [Peer.stream, List.append_nil, List.take_of_length_le (by omega)]
        exact shown

/-- One test of the loop for each missing byte, and one more, is enough. -/
theorem receiveLoop_ends (size : Int) (fuel : Nat) : ∀ (peer : Peer) (completed : Int) (buffer : Writes),
    completed ≤ size → NoEarlyEnd peer (size - completed) → size - completed < fuel →
    (receiveLoop size fuel peer completed buffer).isSome := by
  induction fuel with
  | zero =>
      intro peer completed buffer room _ enough
      push_cast at enough
      omega
  | succ fuel ih =>
      intro peer completed buffer room noEnd enough
      unfold receiveLoop
      by_cases missing : completed < size
      · rw [if_pos missing]
        cases read : peer.answers 0 with
        | error => rfl
        | data bytes =>
            have some' : bytes ≠ [] := by
              rintro rfl
              exact noEnd 0 (by simp) (by simp [Peer.stream]; omega) read
            have positive := List.length_pos_iff.mpr some'
            have progress : 0 < (bytes.take (size - completed).toNat).length ∧
                ((bytes.take (size - completed).toNat).length : Int) ≤ size - completed := by
              rw [List.length_take]
              omega
            exact ih peer.next _ _ (by omega) (noEnd.next read) (by push_cast at enough; omega)
      · rw [if_neg missing]
        rfl

/-- After an end of file no test ends the loop. -/
theorem receiveLoop_stuck (size : Int) (fuel : Nat) :
    ∀ (peer : Peer) (completed : Int) (buffer : Writes) (k : Nat),
    (∀ i < k, peer.answers i ≠ .error) → completed + (peer.stream k).length < size →
    peer.answers k = .data [] → receiveLoop size fuel peer completed buffer = none := by
  induction fuel with
  | zero => intros; rfl
  | succ fuel ih =>
      intro peer completed buffer k noError missing ends
      have early : completed < size := by omega
      unfold receiveLoop
      rw [if_pos early]
      cases k with
      | zero =>
          rw [ends]
          simp only [List.take_nil, List.length_nil]
          exact ih peer.next _ _ 0 (by simp) (by simpa [Peer.stream] using early) (peer.closed 0 ends)
      | succ k =>
          cases read : peer.answers 0 with
          | error => exact (noError 0 (by omega) read).elim
          | data bytes =>
              rw [Peer.stream, read, Read.bytes, List.length_append] at missing
              push_cast at missing
              have whole : bytes.take (size - completed).toNat = bytes :=
                List.take_of_length_le (by omega)
              simp only [whole]
              exact ih peer.next _ _ k (fun i before => noError (i + 1) (by omega)) (by omega) ends

end Loop

/-! ## The whole call -/

theorem declared_nonneg {call : Call} {size : Int} (declared : call.declared = some size) :
    0 ≤ size := by
  unfold Call.declared at declared
  split at declared
  · cases declared
  · split at declared
    · cases declared
    · simp only [] at declared
      split at declared
      · cases declared
      · next range =>
          split at declared
          · obtain rfl := Option.some.inj declared
            omega
          · cases declared

/-- What the loop has received is the declared part of the stream, and a NUL has room
behind it. -/
theorem receiveLoop_received {size completed : Int} {fuel : Nat} {peer : Peer} {buffer : Writes}
    (natural : 0 ≤ size)
    (looped : receiveLoop size fuel peer 0 untouched = some (some (completed, buffer))) :
    ∃ k, completed = size ∧ size ≤ (peer.stream k).length ∧
      Within (put buffer completed 0) (size + 1) ∧
      HoldsText (put buffer completed 0) ((peer.stream k).take size.toNat) := by
  have empty : Shows untouched 0 [] := fun k inside => by simp at inside
  obtain ⟨k, rfl, enough, within, shown⟩ := receiveLoop_complete fuel peer 0 untouched [] completed
    buffer rfl natural within_untouched empty looped
  rw [List.nil_append] at shown
  rw [Int.zero_add] at enough
  have length : (((peer.stream k).take completed.toNat).length : Int) = completed := by
    rw [List.length_take]
    omega
  refine ⟨k, rfl, enough, ?_, ?_⟩
  · refine Within.put (fun i written => ?_) natural (by omega)
    have place := within i written
    omega
  · refine shows_append.mpr ⟨@Shows.puts _ completed [0] _ _ shown (.inl (by omega)), ?_⟩
    rw [length, Int.zero_add]
    exact shows_puts

/-- A call that ends without an error has the whole dump in the buffer. -/
theorem serverDataCmd_complete {fuel : Nat} {call : Call} {outcome : Outcome}
    (ran : serverDataCmd fuel call = some outcome) (success : outcome.status = 0) :
    ∃ size k, call.declared = some size ∧ size ≤ (call.peer.stream k).length ∧
      Within outcome.buffer (size + 1) ∧
      HoldsText outcome.buffer ((call.peer.stream k).take size.toNat) := by
  unfold serverDataCmd at ran
  cases declared : call.declared with
  | none =>
      rw [declared] at ran
      cases ran
      cases success
  | some size =>
      have natural := declared_nonneg declared
      rw [declared] at ran
      simp only [] at ran
      cases looped : receiveLoop size fuel call.peer 0 untouched with
      | none =>
          rw [looped] at ran
          cases ran
      | some received =>
          rw [looped] at ran
          cases received with
          | none =>
              cases ran
              cases success
          | some received =>
              obtain ⟨completed, buffer⟩ := received
              obtain ⟨k, rfl, enough, bounds, stored⟩ := receiveLoop_received natural looped
              refine ⟨completed, k, rfl, enough, ?_⟩
              simp only [] at ran
              split at ran
              · cases ran
                cases success
              · cases ran
                exact ⟨bounds, stored⟩

theorem serverDataCmd_status {fuel : Nat} {call : Call} {outcome : Outcome}
    (ran : serverDataCmd fuel call = some outcome) : outcome.status = 0 ∨ outcome.status = -1 := by
  unfold serverDataCmd at ran
  split at ran
  · cases ran
    exact .inr rfl
  · split at ran
    · cases ran
    · cases ran
      exact .inr rfl
    · simp only [] at ran
      split at ran
      · cases ran
        exact .inr rfl
      · cases ran
        exact .inl rfl

/-- The call ends as it should if and only if the daemon does not close the connection
in the middle of the dump. -/
theorem receive_ends_iff (call : Call) :
    Ends call ↔ ∀ size, call.declared = some size → NoEarlyEnd call.peer size := by
  constructor
  · intro ends size declared k noError missing closed
    obtain ⟨fuel, terminates⟩ := ends.terminates
    have stuck := receiveLoop_stuck size fuel call.peer 0 untouched k noError (by omega) closed
    unfold serverDataCmd at terminates
    rw [declared] at terminates
    simp only [stuck] at terminates
    cases terminates
  · intro noEnd
    refine ⟨?_, fun _ _ => serverDataCmd_status, fun _ _ => serverDataCmd_complete⟩
    cases declared : call.declared with
    | none =>
        refine ⟨0, ?_⟩
        rw [serverDataCmd, declared]
        rfl
    | some size =>
        have natural := declared_nonneg declared
        have terminates := receiveLoop_ends size (size.toNat + 1) call.peer 0 untouched natural
          (by rw [Int.sub_zero]; exact noEnd size declared) (by omega)
        obtain ⟨received, looped⟩ := Option.isSome_iff_exists.mp terminates
        refine ⟨size.toNat + 1, ?_⟩
        rw [serverDataCmd, declared]
        simp only [looped]
        cases received with
        | none => rfl
        | some received =>
            simp only []
            split <;> rfl

/-- A daemon that has declared eight bytes and closes the connection. -/
def closedCall : Call where
  replied := true
  first := .data (cstr "8\n")
  junk := []
  allocated := true
  acknowledged := true
  peer := ⟨fun _ => .data [], fun _ closed => closed⟩
  last := .data (cstr "OK")
  lastJunk := []

/-- The call waits for eight bytes for ever. -/
theorem closed_connection_is_read_for_ever :
    closedCall.declared = some 8 ∧ (∀ fuel, serverDataCmd fuel closedCall = none) ∧
      ¬ Ends closedCall := by
  have declared : closedCall.declared = some 8 := by decide
  have stuck (fuel : Nat) : serverDataCmd fuel closedCall = none := by
    rw [serverDataCmd, declared]
    have looped := receiveLoop_stuck 8 fuel closedCall.peer 0 untouched 0 (by simp)
      (by simp [Peer.stream]) rfl
    simp only [looped]
  refine ⟨declared, stuck, fun ends => ?_⟩
  obtain ⟨fuel, terminates⟩ := ends.terminates
  rw [stuck fuel] at terminates
  cases terminates

end Mopher.Receive
