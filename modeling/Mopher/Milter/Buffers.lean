import Mopher.Milter.Isolation
import Mopher.Lib.Blocks

/-!
# The buffers of a message

What `milter_header`, `milter_eoh`, `milter_body`, `milter_eom` and
`milter_priv_clear_msg` do in memory: `mp_header` and `mp_body` are grown by
`realloc`, and the symbols `headers` and `body` are set with `VF_KEEP`, so they
point into them.  The session refers to the buffers by their content; its content
is what the memory holds, behind every run of callbacks.

The arguments of `milter_header` are strings, so `strlen` is their length.
-/

set_option autoImplicit false

namespace Mopher.Milter

open Blocks

/-- `mp_header` and `mp_body` with their lengths, and the data of the symbols
`headers` and `body`. -/
structure Buffers where
  heap : Heap
  header : Option Nat
  headerlen : Nat
  body : Option Nat
  bodylen : Nat
  headers : Option Nat
  bodySymbol : Option Nat

def buffersCreate : Buffers :=
  { heap := [], header := none, headerlen := 0, body := none, bodylen := 0, headers := none,
    bodySymbol := none }

section Model
variable (junk : Nat → Nat → UInt8)

/-- `milter_header`; `snprintf` writes at most `len` bytes, the last of which is
the NUL. -/
def appendHeader (b : Buffers) (headerf headerv : Bytes) : Option Buffers := do
  let len := headerf.length + headerv.length + 5
  let (address, heap) ← realloc (junk b.heap.length) b.heap b.header (b.headerlen + len)
  let heap ← write heap address b.headerlen ((headerLine headerf headerv).take (len - 1) ++ [0])
  return { b with heap := heap, header := some address, headerlen := b.headerlen + (len - 1) }

/-- `milter_body`. -/
def appendBody (b : Buffers) (chunk : Bytes) : Option Buffers := do
  let len := chunk.length
  let (address, heap) ← realloc (junk b.heap.length) b.heap b.body (b.bodylen + len + 1)
  let heap ← write heap address b.bodylen chunk
  let heap ← write heap address (b.bodylen + len) [0]
  return { b with heap := heap, body := some address, bodylen := b.bodylen + len }

/-- The buffers as the ACL of the callback finds them. -/
def prepareBuffers (b : Buffers) : Callback → Option Buffers
  | .header headerf headerv => appendHeader junk b headerf headerv
  | .eoh => some { b with headers := b.header }
  | .body chunk => appendBody junk b chunk
  | .eom => some { b with bodySymbol := b.body }
  | _ => some b

def freeBuffer (heap : Heap) (pointer : Option Nat) : Heap :=
  match pointer with
  | none => heap
  | some address => free heap address

/-- `milter_priv_clear_msg`. -/
def clearBuffers (b : Buffers) : Buffers :=
  { b with
    heap := freeBuffer (freeBuffer b.heap b.header) b.body
    header := none
    headerlen := 0
    body := none
    bodylen := 0 }

def buffersStep (b : Buffers) (callback : Callback) : Option Buffers :=
  (prepareBuffers junk b callback).map fun b => if callback.endsMessage then clearBuffers b else b

def buffersRun (b : Buffers) : List Call → Option Buffers
  | [] => some b
  | call :: rest => (buffersStep junk b call.callback).bind fun next => buffersRun next rest

end Model

/-! ## The content of the buffers -/

/-- The pointer is null, or it is a block with the content and a NUL behind it. -/
def HoldsText (heap : Heap) (pointer : Option Nat) (length : Nat) (content : Option Bytes) : Prop :=
  length = (content.getD []).length ∧
    match content with
    | none => pointer = none
    | some text => ∃ address, pointer = some address ∧ block heap address = some (text ++ [0])

/-- The buffers have the content that the session knows. -/
structure Holds (b : Buffers) (mp : MilterPriv) : Prop where
  header : HoldsText b.heap b.header b.headerlen mp.header
  headerlen : mp.headerlen = b.headerlen
  body : HoldsText b.heap b.body b.bodylen mp.body
  bodylen : mp.bodylen = b.bodylen
  apart : ∀ address, b.header = some address → b.body ≠ some address

section Content
variable {heap : Heap} {pointer other : Option Nat} {length : Nat} {content : Option Bytes}

/-- Text in another block stays when blocks are freed, allocated and written. -/
theorem HoldsText.frame {heap' : Heap} (held : HoldsText heap pointer length content)
    (kept : ∀ address, pointer = some address → block heap' address = block heap address) :
    HoldsText heap' pointer length content := by
  cases content with
  | none => exact held
  | some text =>
      obtain ⟨length, address, rfl, live⟩ := held
      exact ⟨length, address, rfl, (kept address rfl).trans live⟩

theorem HoldsText.lt_length (held : HoldsText heap pointer length content) {address : Nat}
    (here : pointer = some address) : address < heap.length := by
  cases content with
  | none =>
      obtain ⟨_, null⟩ := held
      rw [null] at here
      cases here
  | some text =>
      obtain ⟨_, other, same, live⟩ := held
      rw [same] at here
      cases here
      exact Blocks.lt_length live

/-- `realloc` of a buffer to a size behind its text keeps the text, and moves no
other block. -/
theorem realloc_grows (junk : Nat → UInt8) (held : HoldsText heap pointer length content) (more : Nat) :
    ∃ heap' room, realloc junk heap pointer (length + (more + 1)) = some (heap.length, heap') ∧
      block heap' heap.length = some (content.getD [] ++ room) ∧ room.length = more + 1 ∧
      ∀ address, address < heap.length → pointer ≠ some address →
        block heap' address = block heap address := by
  cases content with
  | none =>
      obtain ⟨rfl, rfl⟩ := held
      obtain ⟨room, size, grown⟩ := resized_append junk [] (more + 1)
      refine ⟨_, room, rfl, ?_, size, fun address inside _ => block_alloc_of_lt inside _⟩
      rw [block_alloc]
      exact congrArg some grown
  | some text =>
      obtain ⟨rfl, address, rfl, live⟩ := held
      obtain ⟨room, size, grown⟩ := resized_append junk (text ++ [0]) more
      have total : (text ++ [0]).length + more = text.length + (more + 1) := by
        simp only [List.length_append, List.length_singleton]
        omega
      have freed : (free heap address).length = heap.length := List.length_set
      rw [total] at grown
      refine ⟨alloc (free heap address) (text ++ [0] ++ room), 0 :: room, ?_, ?_, ?_, ?_⟩
      · simp only [realloc, live, Option.map_some, Option.getD_some, grown]
      · rw [← freed, block_alloc]
        simp
      · simp [size]
      · intro other inside different
        rw [block_alloc_of_lt (by rwa [freed])]
        exact block_set_of_ne (fun same => different (congrArg some same)) none

end Content

section Append
variable (junk : Nat → Nat → UInt8) {b : Buffers} {content : Option Bytes}

theorem headerLine_length (headerf headerv : Bytes) :
    (headerLine headerf headerv).length = headerf.length + headerv.length + 4 := by
  simp [headerLine]
  omega

/-- `milter_header` appends a line to the header and leaves the other blocks. -/
theorem appendHeader_spec (held : HoldsText b.heap b.header b.headerlen content)
    (headerf headerv : Bytes) : ∃ heap,
      appendHeader junk b headerf headerv = some { b with
        heap := heap
        header := some b.heap.length
        headerlen := b.headerlen + (headerLine headerf headerv).length } ∧
      block heap b.heap.length = some (content.getD [] ++ headerLine headerf headerv ++ [0]) ∧
      ∀ address, address < b.heap.length → b.header ≠ some address →
        block heap address = block b.heap address := by
  have length := headerLine_length headerf headerv
  obtain ⟨grown, room, moved, live, size, kept⟩ := realloc_grows (junk b.heap.length) held
    (headerLine headerf headerv).length
  have line : (headerLine headerf headerv).take (headerf.length + headerv.length + 5 - 1) =
      headerLine headerf headerv := List.take_of_length_le (by omega)
  have written := write_append (content.getD []) [] (headerLine headerf headerv ++ [0])
    (live.trans (by rw [List.append_nil])) (by simp [size])
  rw [← held.1] at written
  refine ⟨grown.set b.heap.length (some (content.getD [] ++ (headerLine headerf headerv ++ [0]) ++ [])),
    ?_, ?_, ?_⟩
  · have moved' : realloc (junk b.heap.length) b.heap b.header
        (b.headerlen + (headerf.length + headerv.length + 5)) = some (b.heap.length, grown) := by
      rw [← moved, length]
    simp only [appendHeader, moved', line, written, Option.bind_eq_bind, Option.bind_some,
      Option.pure_def, length]
    rfl
  · rw [block_set (Blocks.lt_length live)]
    simp
  · intro address inside different
    rw [block_set_of_ne (Nat.ne_of_gt inside), kept address inside different]

/-- `milter_body` appends a chunk to the body and leaves the other blocks. -/
theorem appendBody_spec (held : HoldsText b.heap b.body b.bodylen content) (chunk : Bytes) : ∃ heap,
      appendBody junk b chunk = some { b with
        heap := heap
        body := some b.heap.length
        bodylen := b.bodylen + chunk.length } ∧
      block heap b.heap.length = some (content.getD [] ++ chunk ++ [0]) ∧
      ∀ address, address < b.heap.length → b.body ≠ some address →
        block heap address = block b.heap address := by
  obtain ⟨grown, room, moved, live, size, kept⟩ :=
    realloc_grows (junk b.heap.length) held chunk.length
  obtain ⟨old, last, rfl⟩ : ∃ old last, room = old ++ [last] := by
    refine ⟨room.dropLast, room.getLast (List.ne_nil_of_length_eq_add_one size), ?_⟩
    rw [List.dropLast_concat_getLast]
  have first := write_append (content.getD []) [last] chunk
    (live.trans (by rw [List.append_assoc])) (by simpa using size.symm)
  have live' : block (grown.set b.heap.length (some (content.getD [] ++ chunk ++ [last]))) b.heap.length =
      some ((content.getD [] ++ chunk) ++ [last] ++ []) := by
    rw [block_set (Blocks.lt_length live), List.append_nil]
  have second := write_append (content.getD [] ++ chunk) [] [0] live' rfl
  rw [List.length_append] at second
  rw [← held.1] at first second
  refine ⟨(grown.set b.heap.length (some (content.getD [] ++ chunk ++ [last]))).set b.heap.length
    (some (content.getD [] ++ chunk ++ [0] ++ [])), ?_, ?_, ?_⟩
  · have moved' : realloc (junk b.heap.length) b.heap b.body (b.bodylen + chunk.length + 1) =
        some (b.heap.length, grown) := by
      rw [← moved, Nat.add_assoc]
    simp only [appendBody, moved', first, second, Option.bind_eq_bind, Option.bind_some,
      Option.pure_def]
  · rw [block_set (Blocks.lt_length live'), List.append_nil]
  · intro address inside different
    have apart : b.heap.length ≠ address := Nat.ne_of_gt inside
    rw [block_set_of_ne apart, block_set_of_ne apart, kept address inside different]

end Append

/-! ## The session knows the content -/

/-- What a callback leaves of the private data, apart from the table. -/
def settled (callback : Callback) (mp : MilterPriv) : MilterPriv :=
  if callback.endsMessage then milterPrivClearMsg (callback.handler.advance mp)
  else callback.handler.advance mp

theorem advance_with_table (callback : Callback) (mp : MilterPriv) (table : Table) :
    callback.handler.advance { mp with table := table } =
      { callback.handler.advance mp with table := table } := by
  cases callback <;> rfl

theorem milterCallback_eq {ctx : Nat} {mp next : MilterPriv} {call : Call}
    (success : milterCallback ctx mp call = some next) :
    ∃ table, next = { settled call.callback mp with table := table } := by
  obtain ⟨⟨prepared, ready⟩, preparing, rest⟩ := Option.bind_eq_some_iff.mp success
  obtain ⟨first, initialised, preparing⟩ := Option.bind_eq_some_iff.mp preparing
  obtain ⟨saved, _, rfl⟩ := Option.map_eq_some_iff.mp initialised
  rw [advance_with_table] at preparing
  cases symbols : call.callback.handler.symbols { call.callback.handler.advance mp with
      table := lookupQueueId call.queueId
        (vtableSetv saved (stageSymbols ctx call.callback.handler.stage)) } with
  | none =>
      -- only callbacks that parse an address return early
      have stays : call.callback.endsMessage = false := by
        cases callback : call.callback with
        | eom => simp [callback, Callback.handler, milterEom] at symbols
        | abort => simp [callback, Callback.handler, milterAbort] at symbols
        | _ => rfl
      simp only [symbols] at preparing
      cases Option.some.inj preparing
      cases Option.some.inj rest
      simp only [settled, stays, Bool.false_eq_true, if_false]
      exact ⟨_, rfl⟩
  | some entries =>
      simp only [symbols] at preparing
      cases Option.some.inj preparing
      simp only [if_true, complete] at rest
      cases accepted : acceptedRecipient call with
      | none =>
          simp only [accepted] at rest
          cases ends : call.callback.endsMessage with
          | false =>
              simp only [ends, Bool.false_eq_true, if_false, Option.some.injEq] at rest
              subst rest
              simp only [settled, ends, Bool.false_eq_true, if_false]
              exact ⟨_, rfl⟩
          | true =>
              simp only [ends, if_true, Option.some.injEq] at rest
              subst rest
              simp only [settled, ends, if_true]
              exact ⟨_, rfl⟩
      | some address =>
          have stays : call.callback.endsMessage = false := by
            cases callback : call.callback with
            | eom => simp [acceptedRecipient, callback] at accepted
            | abort => simp [acceptedRecipient, callback] at accepted
            | _ => rfl
          simp only [accepted] at rest
          obtain ⟨table, _, result⟩ := Option.bind_eq_some_iff.mp rest
          cases Option.some.inj result
          simp only [settled, stays, Bool.false_eq_true, if_false]
          exact ⟨_, rfl⟩

section Refinement
variable (junk : Nat → Nat → UInt8) {b : Buffers} {mp : MilterPriv}

theorem buffersCreate_holds : Holds buffersCreate milterPrivCreate where
  header := ⟨rfl, rfl⟩
  headerlen := rfl
  body := ⟨rfl, rfl⟩
  bodylen := rfl
  apart _ here := by cases here

theorem Holds.with_table (holds : Holds b mp) (table : Table) : Holds b { mp with table := table } :=
  ⟨holds.header, holds.headerlen, holds.body, holds.bodylen, holds.apart⟩

/-- A callback grows the buffers as the session says. -/
theorem prepareBuffers_holds (holds : Holds b mp) (callback : Callback) :
    ∃ next, prepareBuffers junk b callback = some next ∧ Holds next (callback.handler.advance mp) := by
  cases callback with
  | header headerf headerv =>
      obtain ⟨heap, ran, live, kept⟩ := appendHeader_spec junk holds.header headerf headerv
      refine ⟨_, ran, ⟨?_, ?_, ?_, ?_, ?_⟩⟩
      · refine ⟨?_, b.heap.length, rfl, live⟩
        simp [Callback.handler, milterHeader, holds.header.1]
      · simp [Callback.handler, milterHeader, holds.headerlen]
      · apply holds.body.frame
        intro address here
        exact kept address (holds.body.lt_length here) fun same => holds.apart address same here
      · exact holds.bodylen
      · intro address here same
        cases here
        exact Nat.lt_irrefl _ (holds.body.lt_length same)
  | body chunk =>
      obtain ⟨heap, ran, live, kept⟩ := appendBody_spec junk holds.body chunk
      refine ⟨_, ran, ⟨?_, ?_, ?_, ?_, ?_⟩⟩
      · apply holds.header.frame
        intro address here
        exact kept address (holds.header.lt_length here) (holds.apart address here)
      · exact holds.headerlen
      · refine ⟨?_, b.heap.length, rfl, live⟩
        simp [Callback.handler, milterBody, holds.body.1]
      · simp [Callback.handler, milterBody, holds.bodylen]
      · intro address here same
        cases same
        exact Nat.lt_irrefl _ (holds.header.lt_length here)
  | _ => exact ⟨_, rfl, ⟨holds.header, holds.headerlen, holds.body, holds.bodylen, holds.apart⟩⟩

theorem buffersStep_holds (holds : Holds b mp) (callback : Callback) :
    ∃ next, buffersStep junk b callback = some next ∧ Holds next (settled callback mp) := by
  obtain ⟨next, prepared, holds'⟩ := prepareBuffers_holds junk holds callback
  refine ⟨_, by rw [buffersStep, prepared, Option.map_some], ?_⟩
  unfold settled
  split
  · exact ⟨⟨rfl, rfl⟩, rfl, ⟨rfl, rfl⟩, rfl, fun _ here => by cases here⟩
  · exact holds'

theorem buffersRun_holds (ctx : Nat) (calls : List Call) : ∀ {b : Buffers} {mp next : MilterPriv},
    Holds b mp → milterRun ctx mp calls = some next →
    ∃ after, buffersRun junk b calls = some after ∧ Holds after next := by
  induction calls with
  | nil =>
      intro b mp next holds success
      cases Option.some.inj success
      exact ⟨b, rfl, holds⟩
  | cons call rest ih =>
      intro b mp next holds success
      obtain ⟨middle, first, later⟩ := Option.bind_eq_some_iff.mp success
      obtain ⟨table, rfl⟩ := milterCallback_eq first
      obtain ⟨stepped, ran, holds'⟩ := buffersStep_holds junk holds call.callback
      obtain ⟨after, ran', holdsAfter⟩ := ih (holds'.with_table table) later
      refine ⟨after, ?_, holdsAfter⟩
      rw [buffersRun, ran, Option.bind_some, ran']

theorem milterConnect_eq {ctx : Nat} {connect : Connect}
    (success : milterConnect ctx connect = some mp) :
    ∃ table, mp = { milterPrivCreate with table := table } := by
  simp only [milterConnect, milterInitStage, Option.bind_eq_bind, Option.bind_eq_some_iff,
    Option.pure_def, Option.some.injEq] at success
  obtain ⟨-, ⟨first, firstInit, rfl⟩, second, secondInit, success⟩ := success
  obtain ⟨_, _, rfl⟩ := Option.map_eq_some_iff.mp firstInit
  obtain ⟨_, _, rfl⟩ := Option.map_eq_some_iff.mp secondInit
  cases client : connect.client with
  | none =>
      rw [client] at success
      cases Option.some.inj success
      exact ⟨_, rfl⟩
  | some known =>
      rw [client] at success
      cases Option.some.inj success
      exact ⟨_, rfl⟩

/-- Behind any callbacks of a connection the memory holds the header and the body
that the session has collected. -/
theorem session_buffers (ctx : Nat) (connect : Connect) (calls : List Call)
    (success : milterSession ctx connect calls = some mp) :
    ∃ b, buffersRun junk buffersCreate calls = some b ∧ Holds b mp := by
  obtain ⟨first, connected, later⟩ := Option.bind_eq_some_iff.mp success
  obtain ⟨table, rfl⟩ := milterConnect_eq connected
  exact buffersRun_holds junk ctx calls (buffersCreate_holds.with_table table) later

end Refinement

end Mopher.Milter
