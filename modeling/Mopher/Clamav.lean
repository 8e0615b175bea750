import Mopher.Lib.CheckedBuffer
import Mopher.Lib.LittleEndian
import Mopher.Vtable

/-!
# Scanning by clamd

Model of `clamav_query` in `modules/clamav.c`, from the first write on.  The message goes to
clamd as a stream of one chunk, and a single `read` takes what has come of the reply by
then.  The reply is looked at from its end, in front of which there may be other bytes of
the stack: `front` is what is in front of `buffer`.
-/

set_option autoImplicit false

namespace Mopher.Clamav

open CheckedBuffer

def bufLen : Nat := 4096

/-- `CLAMAV_INSTREAM`, with the NUL that is counted in its length. -/
def clamavInstream : Bytes := cstr "zINSTREAM" ++ [0]

def clamavStream : Bytes := cstr "stream: "

def clamavOk : Bytes := cstr "OK"

def clamavFound : Bytes := cstr " FOUND"

/-! ## The stream -/

/-- `htonl` of a number that was cut to an `int32_t`. -/
def htonl (n : Nat) : Bytes := (LittleEndian.encode 4 n).reverse

/-- What is written; the last one is a `long`. -/
def clamavWrites (message : Bytes) : List Bytes :=
  [clamavInstream, htonl message.length, message, List.replicate 8 0]

/-- Writes that take as many bytes as `accepted` says, or fail; that one was short is not
noticed. -/
def writeAll (accepted : Nat → Option Nat) : List Bytes → Option Bytes
  | [] => some []
  | bytes :: rest =>
      (accepted 0).bind fun n => (writeAll (fun k => accepted (k + 1)) rest).map (bytes.take n ++ ·)

/-! ## The reply -/

/-- The bytes in front of `buffer`. -/
structure Front where
  bytes : Bytes
  size : bytes.length = 7

inductive Verdict where
  | failed
  | clean
  | virus (name : Bytes)
deriving Repr, DecidableEq

/-- `buffer[n] = 0` behind the bytes that were read; place 7 is the start of `buffer`. -/
def received (front : Front) (bytes : Bytes) (fits : bytes.length < bufLen) : Buffer where
  bytes := front.bytes ++ bytes ++ [0]
  room := 7 + bufLen
  fits := by
    rw [List.length_append, List.length_append, List.length_singleton, front.size]
    omega

/-- `clamav_query` from "Read response" on; there is nothing where `read` failed. -/
def clamavVerdict (front : Front) (answer : Option Bytes) : Except BadAccess Verdict :=
  match answer with
  | none => .ok .failed
  | some bytes =>
      if fits : bytes.length < bufLen then do
        let n := bytes.length
        let b := received front bytes fits
        if n = 0 then .ok .failed
        else if ← b.strncmp (7 + n - clamavOk.length - 1) clamavOk then .ok .clean
        else if !(← b.strncmp (7 + n - clamavFound.length - 1) clamavFound) then .ok .failed
        else do
          let b ← b.store (7 + n - clamavFound.length) 0
          let virus ← b.text (7 + clamavStream.length)
          .ok (.virus virus)
      else .ok .failed

/-- The end of `clamav_query`.  The number `clean` is stored as a string: the string that is in
its memory. -/
def clamavStore (attrs : Table) : Verdict → Int × Table
  | .failed => (-1, attrs)
  | .clean => (0, vtableSetv attrs [("clamav_clean", .string [1]), ("clamav_virus", .nil .string)])
  | .virus name => (0, vtableSetv attrs [("clamav_clean", .string []), ("clamav_virus", .string name)])

/-- `clamav_query`; `answer` is what has come of the reply when it is read, and `read` takes no
more than there is room for. -/
def clamavQuery (front : Front) (accepted : Nat → Option Nat) (answer : Bytes → Option Bytes)
    (message : Bytes) (attrs : Table) : Except BadAccess (Int × Table) :=
  match writeAll accepted (clamavWrites message) with
  | none => .ok (-1, attrs)
  | some sent => do
      let verdict ← clamavVerdict front ((answer sent).map (·.take (bufLen - 1)))
      .ok (clamavStore attrs verdict)

/-! ## clamd -/

/-- The chunks of a stream: each one behind its length, and the last one of length zero; there
is nothing as long as more is to come. -/
def chunks : Nat → Bytes → Option Bytes
  | 0, _ => none
  | turns + 1, stream =>
      if stream.length < 4 then none
      else
        let size := LittleEndian.decode (stream.take 4).reverse
        if size = 0 then some []
        else if (stream.drop 4).length < size then none
        else (chunks turns (stream.drop (4 + size))).map ((stream.drop 4).take size ++ ·)

/-- What clamd scans. -/
def inStream (stream : Bytes) : Option Bytes :=
  if clamavInstream <+: stream then chunks stream.length (stream.drop clamavInstream.length) else none

/-- The reply to a message in which `scan` has found something, or nothing. -/
def clamdReply : Option Bytes → Bytes
  | none => clamavStream ++ clamavOk ++ [0]
  | some name => clamavStream ++ name ++ clamavFound ++ [0]

/-- The first `n` bytes of the reply. -/
def clamd (scan : Bytes → Option Bytes) (n : Nat) (sent : Bytes) : Option Bytes :=
  (inStream sent).map fun message => (clamdReply (scan message)).take n

/-! ## The stream is the message -/

theorem htonl_length (n : Nat) : (htonl n).length = 4 := by
  rw [htonl, List.length_reverse, LittleEndian.length_encode]

theorem writeAll_whole (writes : List Bytes) : ∀ accepted : Nat → Option Nat,
    (∀ i bytes, writes[i]? = some bytes → ∃ n, accepted i = some n ∧ bytes.length ≤ n) →
    writeAll accepted writes = some writes.flatten := by
  induction writes with
  | nil =>
      intro accepted _
      rfl
  | cons bytes rest ih =>
      intro accepted whole
      obtain ⟨n, first, enough⟩ := whole 0 bytes rfl
      have later := ih (fun k => accepted (k + 1)) fun i other there => whole (i + 1) other there
      rw [writeAll, first, Option.bind_some, later, Option.map_some, List.take_of_length_le enough, List.flatten_cons]

/-- A chunk that is not empty, and what follows it. -/
theorem chunks_cons (message rest : Bytes) (small : message.length < 2 ^ 32) (filled : message ≠ []) (turns : Nat) :
    chunks (turns + 1) (htonl message.length ++ (message ++ rest)) = (chunks turns rest).map (message ++ ·) := by
  have length := htonl_length message.length
  have positive : 0 < message.length := List.length_pos_of_ne_nil filled
  have size : LittleEndian.decode ((htonl message.length ++ (message ++ rest)).take 4).reverse = message.length := by
    rw [List.take_append_of_le_length (by omega), List.take_of_length_le (by omega), htonl, List.reverse_reverse]
    exact LittleEndian.decode_encode_of_lt (by simpa using small)
  have behind : (htonl message.length ++ (message ++ rest)).drop 4 = message ++ rest := by
    rw [← length, List.drop_left]
  rw [chunks, if_neg (by rw [List.length_append]; omega), size]
  simp only [← List.drop_drop, behind]
  rw [if_neg (by omega), if_neg (by rw [List.length_append]; omega), List.take_left, List.drop_left]

/-- The end of the stream, whatever comes behind it. -/
theorem chunks_end (rest : Bytes) (turns : Nat) : chunks (turns + 1) (List.replicate 4 0 ++ rest) = some [] := by
  have size : LittleEndian.decode ((List.replicate 4 (0 : UInt8) ++ rest).take 4).reverse = 0 := by
    rw [List.take_append_of_le_length (by simp), List.take_of_length_le (by simp)]
    rfl
  rw [chunks, if_neg (by simp), size]
  simp only [if_true]

/-- clamd scans the message. -/
theorem inStream_writes (message : Bytes) (small : message.length < 2 ^ 32) :
    inStream (clamavWrites message).flatten = some message := by
  have stream : (clamavWrites message).flatten =
      clamavInstream ++ (htonl message.length ++ (message ++ (List.replicate 4 0 ++ List.replicate 4 0))) := by
    simp [clamavWrites]
  have turns : (clamavWrites message).flatten.length = message.length + 22 := by
    rw [stream]
    simp [htonl_length, clamavInstream, cstr]
    omega
  rw [inStream, if_pos (stream ▸ List.prefix_append ..), turns, stream, List.drop_left]
  by_cases empty : message = []
  · subst empty
    have zero : htonl ([] : Bytes).length = List.replicate 4 0 := rfl
    rw [zero]
    exact chunks_end _ _
  · rw [chunks_cons message _ small empty, chunks_end, Option.map_some, List.append_nil]

/-! ## The end of the reply -/

/-- Where there are enough bytes, `strncmp` sees whether they begin with the literal. -/
theorem sameFrom_enough (literal : Bytes) : ∀ memory : Bytes, literal.length ≤ memory.length →
    sameFrom literal memory = some (literal.isPrefixOf memory) := by
  induction literal with
  | nil =>
      intro memory _
      simp [sameFrom]
  | cons c literal ih =>
      intro memory enough
      cases memory with
      | nil => simp at enough
      | cons byte memory =>
          rw [sameFrom, List.isPrefixOf, ih memory (Nat.le_of_succ_le_succ enough)]
          by_cases same : byte = c
          · simp [same]
          · have differ : (c == byte) = false := beq_false_of_ne fun equal => same equal.symm
            simp [same, differ]

section Ends
variable (front : Front)

/-- The literal at the end of what was received, in front of one more byte. -/
def EndsWith (front : Front) (bytes literal : Bytes) : Prop :=
  ∃ x c, front.bytes ++ bytes = x ++ literal ++ [c]

theorem endsWith_iff {bytes literal : Bytes} (short : literal.length < 7) (filled : bytes ≠ []) :
    EndsWith front bytes literal ↔
      literal <+: (front.bytes ++ bytes ++ [0]).drop (7 + bytes.length - literal.length - 1) := by
  have size := front.size
  have positive := List.length_pos_of_ne_nil filled
  constructor
  · rintro ⟨x, c, same⟩
    have length := congrArg List.length same
    simp only [List.length_append, List.length_singleton, size] at length
    have place : 7 + bytes.length - literal.length - 1 = x.length := by omega
    rw [same, place, List.append_assoc, List.append_assoc, List.drop_left]
    exact List.prefix_append ..
  · rintro ⟨rest, same⟩
    have length := congrArg List.length same
    simp only [List.length_drop, List.length_append, List.length_singleton, size] at length
    obtain ⟨c, zero, rfl⟩ : ∃ c zero, rest = [c, zero] := List.length_eq_two.mp (by omega)
    refine ⟨(front.bytes ++ bytes ++ [0]).take (7 + bytes.length - literal.length - 1), c, ?_⟩
    have split := List.take_append_drop (7 + bytes.length - literal.length - 1) (front.bytes ++ bytes ++ [0])
    rw [← same] at split
    have whole : (((front.bytes ++ bytes ++ [0]).take (7 + bytes.length - literal.length - 1)) ++ literal ++ [c]) ++
        [zero] = (front.bytes ++ bytes) ++ [0] := by
      refine Eq.trans ?_ split
      simp only [List.append_assoc, List.cons_append, List.nil_append]
    exact (List.append_inj_left' whole rfl).symm

/-- Both comparisons with the end are in bounds. -/
theorem strncmp_end {bytes : Bytes} (fits : bytes.length < bufLen) (filled : bytes ≠ []) {literal : Bytes}
    (short : literal.length < 7) :
    ∃ same, (received front bytes fits).strncmp (7 + bytes.length - literal.length - 1) literal = .ok same ∧
      (same = true ↔ EndsWith front bytes literal) := by
  have size := front.size
  refine ⟨_, ?_, Iff.trans List.isPrefixOf_iff_prefix (endsWith_iff front short filled).symm⟩
  have enough : literal.length ≤
      ((front.bytes ++ bytes ++ [0]).drop (7 + bytes.length - literal.length - 1)).length := by
    simp only [List.length_drop, List.length_append, List.length_singleton, size]
    omega
  unfold Buffer.strncmp Buffer.scan
  rw [received, sameFrom_enough literal _ enough]

/-- The string that is taken for the name of the virus. -/
def virusText (front : Front) (bytes : Bytes) (fits : bytes.length < bufLen) : Except BadAccess Bytes :=
  ((received front bytes fits).set (7 + bytes.length - clamavFound.length) 0).text (7 + clamavStream.length)

/-- What becomes of a reply, by what it ends with. -/
theorem clamavVerdict_spec {bytes : Bytes} (fits : bytes.length < bufLen) (filled : bytes ≠ []) :
    (EndsWith front bytes clamavOk → clamavVerdict front (some bytes) = .ok .clean) ∧
      (¬ EndsWith front bytes clamavOk → ¬ EndsWith front bytes clamavFound →
        clamavVerdict front (some bytes) = .ok .failed) ∧
      (¬ EndsWith front bytes clamavOk → EndsWith front bytes clamavFound →
        clamavVerdict front (some bytes) = (virusText front bytes fits).map .virus) := by
  obtain ⟨ok, isOk, okIff⟩ := strncmp_end front fits filled (show clamavOk.length < 7 by decide)
  obtain ⟨found, isFound, foundIff⟩ := strncmp_end front fits filled (show clamavFound.length < 7 by decide)
  have some' : bytes.length ≠ 0 := fun zero => filled (List.eq_nil_of_length_eq_zero zero)
  have store : (received front bytes fits).store (7 + bytes.length - clamavFound.length) 0 =
      .ok ((received front bytes fits).set (7 + bytes.length - clamavFound.length) 0) := by
    rw [Buffer.store, if_pos]
    simp only [received]
    omega
  refine ⟨fun ends => ?_, fun notOk notFound => ?_, fun notOk ends => ?_⟩
  · obtain rfl := okIff.mpr ends
    simp only [clamavVerdict, dif_pos fits, if_neg some', isOk, bind, Except.bind, if_true]
  · obtain rfl : ok = false := Bool.eq_false_iff.mpr fun yes => notOk (okIff.mp yes)
    obtain rfl : found = false := Bool.eq_false_iff.mpr fun yes => notFound (foundIff.mp yes)
    simp only [clamavVerdict, dif_pos fits, if_neg some', isOk, isFound, bind, Except.bind]
    rfl
  · obtain rfl : ok = false := Bool.eq_false_iff.mpr fun yes => notOk (okIff.mp yes)
    obtain rfl := foundIff.mpr ends
    simp only [clamavVerdict, dif_pos fits, if_neg some', isOk, isFound, bind, Except.bind, store]
    rfl

/-- As many bytes in front of `buffer` as the literal has. -/
def Front.EndsIn (front : Front) (literal : Bytes) : Prop := front.bytes.drop (7 - literal.length) = literal

/-- Of one byte nothing is looked at, but what is in front of it. -/
theorem endsWith_one (byte : UInt8) {literal : Bytes} (short : literal.length < 7) :
    EndsWith front [byte] literal ↔ front.EndsIn literal := by
  have size := front.size
  have length : (front.bytes.drop (7 - literal.length)).length = literal.length := by
    rw [List.length_drop, size]
    omega
  rw [endsWith_iff front short (List.cons_ne_nil _ _), List.length_singleton,
    show 7 + 1 - literal.length - 1 = 7 - literal.length by omega, List.append_assoc,
    List.drop_append_of_le_length (by omega), Front.EndsIn]
  constructor
  · intro same
    have shorter := List.prefix_of_prefix_length_le same (List.prefix_append _ _) length.ge
    exact (shorter.eq_of_length length.symm).symm
  · intro same
    rw [same]
    exact List.prefix_append ..

/-- Where the literal reaches back to the first byte, that byte is one of its own. -/
theorem first_mem {byte : UInt8} {rest literal : Bytes} (some' : rest ≠ []) (short : rest.length ≤ literal.length)
    (ends : EndsWith front (byte :: rest) literal) : byte ∈ literal := by
  obtain ⟨x, c, same⟩ := ends
  have size := front.size
  have positive := List.length_pos_of_ne_nil some'
  have length := congrArg List.length same
  simp only [List.length_append, List.length_nil, List.length_cons, size] at length
  have at_ : (front.bytes ++ byte :: rest)[7]? = some byte := by
    rw [List.getElem?_append_right size.le, size]
    rfl
  rw [same, List.append_assoc, List.getElem?_append_right (by omega), List.getElem?_append_left (by omega)] at at_
  exact List.mem_of_getElem? at_

/-- Otherwise the front is out of it. -/
theorem endsWith_take {reply : Bytes} (literal : Bytes) {n : Nat} (inside : n ≤ reply.length) (short : literal.length < 7)
    (enough : literal.length < n) :
    EndsWith front (reply.take n) literal ↔ literal <+: reply.drop (n - literal.length - 1) := by
  have size := front.size
  have length : (reply.take n).length = n := List.length_take_of_le inside
  have filled : reply.take n ≠ [] := List.ne_nil_of_length_pos (by omega)
  have place : (front.bytes ++ reply.take n ++ [0]).drop (7 + n - literal.length - 1) =
      (reply.take n).drop (n - literal.length - 1) ++ [0] := by
    rw [List.append_assoc, show 7 + n - literal.length - 1 = front.bytes.length + (n - literal.length - 1) by omega,
      ← List.drop_drop, List.drop_left, List.drop_append_of_le_length (by omega)]
  have back : (reply.take n).drop (n - literal.length - 1) =
      (reply.drop (n - literal.length - 1)).take (literal.length + 1) := by
    rw [List.drop_take, show n - (n - literal.length - 1) = literal.length + 1 by omega]
  have left : (reply.drop (n - literal.length - 1)).length = reply.length - (n - literal.length - 1) := List.length_drop
  rw [endsWith_iff front short filled, length, place, back, List.prefix_iff_eq_take, List.prefix_iff_eq_take,
    List.take_append_of_le_length (by rw [List.length_take]; omega), List.take_take,
    Nat.min_eq_left (Nat.le_succ _)]

end Ends

/-! ## What clamd replies -/

section Replies
variable (front : Front) {n : Nat}

/-- The reply begins with two bytes of which nothing looked for begins or ends. -/
theorem clamdReply_cons (found : Option Bytes) : ∃ rest, clamdReply found = 115 :: 116 :: rest := by
  cases found with
  | none => exact ⟨_, rfl⟩
  | some name => exact ⟨_, rfl⟩

/-- Too few bytes show nothing, unless it is in front of them. -/
theorem endsWith_few (found : Option Bytes) (literal : Bytes) (short : literal.length < 7) (other : 115 ∉ literal)
    (some' : 0 < n) (few : n ≤ literal.length) (inside : n ≤ (clamdReply found).length) :
    EndsWith front ((clamdReply found).take n) literal ↔ n = 1 ∧ front.EndsIn literal := by
  obtain ⟨rest, cons⟩ := clamdReply_cons found
  rw [cons] at inside ⊢
  obtain ⟨k, rfl⟩ := Nat.exists_eq_add_one.mpr some'
  rw [List.take_succ_cons]
  cases k with
  | zero =>
      rw [List.take_zero, endsWith_one front _ short]
      exact ⟨fun ends => ⟨rfl, ends⟩, And.right⟩
  | succ k =>
      refine iff_of_false ?_ (fun one => by omega)
      intro ends
      refine other (first_mem front ?_ ?_ ends)
      · rw [List.take_succ_cons]
        exact List.cons_ne_nil _ _
      · rw [List.length_take]
        omega

/-- A clean reply says so when it is there as a whole. -/
theorem clean_endsWith_ok (some' : 0 < n) (inside : n ≤ (clamdReply none).length) :
    EndsWith front ((clamdReply none).take n) clamavOk ↔
      n = (clamdReply none).length ∨ n = 1 ∧ front.EndsIn clamavOk := by
  have length : (clamdReply none).length = 11 := rfl
  rw [length] at inside ⊢
  by_cases few : n ≤ 2
  · rw [endsWith_few front none clamavOk (by decide) (by decide) some' few (by omega)]
    exact ⟨.inr, fun either => either.resolve_left (by omega)⟩
  · rw [endsWith_take front clamavOk (length ▸ inside) (by decide) (show 2 < n by omega)]
    have shown : clamavOk <+: (clamdReply none).drop (n - clamavOk.length - 1) ↔ n = 11 := by
      interval_cases n <;> decide
    rw [shown]
    exact ⟨.inl, fun either => either.resolve_right (by omega)⟩

theorem clean_endsWith_found (some' : 0 < n) (inside : n ≤ (clamdReply none).length) :
    EndsWith front ((clamdReply none).take n) clamavFound ↔ n = 1 ∧ front.EndsIn clamavFound := by
  have length : (clamdReply none).length = 11 := rfl
  by_cases few : n ≤ 6
  · exact endsWith_few front none clamavFound (by decide) (by decide) some' few inside
  · rw [endsWith_take front clamavFound inside (by decide) (show 6 < n by omega)]
    rw [length] at inside
    have none' : ¬ clamavFound <+: (clamdReply none).drop (n - clamavFound.length - 1) := by
      interval_cases n <;> decide
    exact iff_of_false none' (by omega)

/-- What a list has at a place. -/
theorem prefix_drop_iff {literal bytes : Bytes} {k : Nat} (inside : k ≤ bytes.length) :
    literal <+: bytes.drop k ↔ ∃ a b, bytes = a ++ literal ++ b ∧ k = a.length := by
  constructor
  · rintro ⟨b, same⟩
    refine ⟨bytes.take k, b, ?_, (List.length_take_of_le inside).symm⟩
    rw [List.append_assoc, same, List.take_append_drop]
  · rintro ⟨a, b, rfl, rfl⟩
    rw [List.append_assoc, List.drop_left]
    exact List.prefix_append ..

/-- The reply with its name. -/
theorem clamdReply_some (name : Bytes) :
    clamdReply (some name) = clamavStream ++ (name ++ (clamavFound ++ [0])) ∧
      clamdReply (some name) = cstr "stream:" ++ (32 :: name ++ clamavFound ++ [0]) := by
  constructor
  · simp [clamdReply, List.append_assoc]
  · simp [clamdReply, clamavStream, cstr, List.append_assoc]

/-- A reply about a virus says clean when the last byte but one that has come is the `K` of an
`OK` in the name. -/
theorem virus_endsWith_ok (name : Bytes) (some' : 0 < n) (inside : n ≤ (clamdReply (some name)).length) :
    EndsWith front ((clamdReply (some name)).take n) clamavOk ↔
      (∃ a b, name = a ++ clamavOk ++ b ∧ n = a.length + 11) ∨ n = 1 ∧ front.EndsIn clamavOk := by
  by_cases few : n ≤ 2
  · rw [endsWith_few front _ clamavOk (by decide) (by decide) some' few inside]
    refine ⟨.inr, fun either => either.resolve_left ?_⟩
    rintro ⟨a, b, _, place⟩
    omega
  · rw [endsWith_take front clamavOk inside (by decide) (show 2 < n by omega), (clamdReply_some name).1]
    have one : ¬ (n = 1 ∧ front.EndsIn clamavOk) := by omega
    simp only [one, or_false]
    have length : n ≤ 8 + (name.length + 7) := by
      have eight : clamavStream.length = 8 := rfl
      have six : clamavFound.length = 6 := rfl
      rw [(clamdReply_some name).1] at inside
      simp only [List.length_append, List.length_singleton, eight, six] at inside
      omega
    have two : clamavOk.length = 2 := rfl
    rw [two]
    by_cases early : n < 11
    · -- inside of "stream: "
      refine iff_of_false ?_ ?_
      · interval_cases n <;> simp [clamavOk, clamavStream, cstr]
      · rintro ⟨a, b, _, place⟩
        omega
    · obtain ⟨i, rfl⟩ : ∃ i, n = i + 11 := ⟨n - 11, by omega⟩
      have place : i + 11 - 2 - 1 = clamavStream.length + i := by
        have eight : clamavStream.length = 8 := rfl
        omega
      rw [place, ← List.drop_drop, List.drop_left]
      constructor
      · intro shown
        by_cases before : i ≤ name.length
        · rw [List.drop_append_of_le_length before] at shown
          rcases rest : name.drop i with _ | ⟨x, _ | ⟨y, more⟩⟩
          · rw [rest] at shown
            exact absurd shown (by decide)
          · rw [rest] at shown
            simp [clamavOk, clamavFound, cstr] at shown
          · rw [rest] at shown
            have shown' : clamavOk <+: name.drop i := by
              rw [rest]
              simpa [clamavOk, cstr] using shown
            obtain ⟨a, b, same, at_⟩ := (prefix_drop_iff before).mp shown'
            exact ⟨a, b, same, by omega⟩
        · exfalso
          obtain ⟨k, rfl⟩ : ∃ k, i = name.length + k := ⟨i - name.length, by omega⟩
          rw [← List.drop_drop, List.drop_left] at shown
          have small : k < 7 := by omega
          revert shown
          interval_cases k <;> decide
      · rintro ⟨a, b, rfl, same⟩
        obtain rfl : i = a.length := by omega
        rw [List.append_assoc, List.append_assoc, List.drop_left]
        exact ⟨_, rfl⟩

/-- It says that something is found where " FOUND" has come, which may be in the name. -/
theorem virus_endsWith_found (name : Bytes) (some' : 0 < n) (inside : n ≤ (clamdReply (some name)).length) :
    EndsWith front ((clamdReply (some name)).take n) clamavFound ↔
      (∃ a b, 32 :: name ++ clamavFound = a ++ clamavFound ++ b ∧ n = a.length + 14) ∨
        n = 1 ∧ front.EndsIn clamavFound := by
  by_cases few : n ≤ 6
  · rw [endsWith_few front _ clamavFound (by decide) (by decide) some' few inside]
    refine ⟨.inr, fun either => either.resolve_left ?_⟩
    rintro ⟨a, b, _, place⟩
    omega
  · have one : ¬ (n = 1 ∧ front.EndsIn clamavFound) := by omega
    rw [endsWith_take front clamavFound inside (by decide) (show 6 < n by omega)]
    rw [(clamdReply_some name).2] at inside ⊢
    simp only [one, or_false]
    have six : clamavFound.length = 6 := rfl
    rw [six]
    by_cases early : n < 14
    · -- inside of "stream:"
      refine iff_of_false ?_ ?_
      · interval_cases n <;> simp [clamavFound, cstr]
      · rintro ⟨a, b, _, place⟩
        omega
    · obtain ⟨i, rfl⟩ : ∃ i, n = i + 14 := ⟨n - 14, by omega⟩
      have seven : (cstr "stream:").length = 7 := rfl
      have place : i + 14 - 6 - 1 = (cstr "stream:").length + i := by omega
      have room : i + 6 ≤ (32 :: name ++ clamavFound).length := by
        simp only [List.length_append, List.length_singleton, seven] at inside ⊢
        omega
      rw [place, ← List.drop_drop, List.drop_left, prefix_drop_iff (by rw [List.length_append]; omega)]
      constructor
      · rintro ⟨a, b, same, rfl⟩
        have length := congrArg List.length same
        simp only [List.length_append, List.length_singleton, six] at length room
        have filled : b ≠ [] := List.ne_nil_of_length_pos (by omega)
        obtain ⟨front', last, rfl⟩ : ∃ front' last, b = front' ++ [last] :=
          ⟨b.dropLast, b.getLast filled, (List.dropLast_append_getLast filled).symm⟩
        rw [← List.append_assoc] at same
        exact ⟨a, front', List.append_inj_left' same rfl, rfl⟩
      · rintro ⟨a, b, same, at_⟩
        refine ⟨a, b ++ [0], ?_, by omega⟩
        rw [same, List.append_assoc, List.append_assoc]

end Replies

/-! ## What is stored -/

section Stored
variable (front : Front)

theorem not_both {bytes : Bytes} (ends : EndsWith front bytes clamavFound) : ¬ EndsWith front bytes clamavOk := by
  rintro ⟨y, d, same'⟩
  obtain ⟨x, c, same⟩ := ends
  rw [same] at same'
  have texts : (x ++ cstr " FOU") ++ cstr "ND" = y ++ clamavOk := by
    have front' := List.append_inj_left' same' rfl
    rw [← front', List.append_assoc]
    rfl
  have twos : cstr "ND" = clamavOk := List.append_inj_right' texts rfl
  revert twos
  decide

/-- The verdict, by what the reply ends with. -/
theorem clamavVerdict_iff {bytes : Bytes} (fits : bytes.length < bufLen) (filled : bytes ≠ []) :
    (clamavVerdict front (some bytes) = .ok .clean ↔ EndsWith front bytes clamavOk) ∧
      (∀ virus, clamavVerdict front (some bytes) = .ok (.virus virus) ↔
        EndsWith front bytes clamavFound ∧ virusText front bytes fits = .ok virus) ∧
      (InBounds (clamavVerdict front (some bytes)) ↔
        (EndsWith front bytes clamavFound → InBounds (virusText front bytes fits))) := by
  obtain ⟨clean, failed, found⟩ := clamavVerdict_spec front fits filled
  by_cases ok : EndsWith front bytes clamavOk
  · have other : ¬ EndsWith front bytes clamavFound := fun ends => not_both front ends ok
    rw [clean ok]
    refine ⟨iff_of_true rfl ok, fun virus => iff_of_false (by intro same; cases same) fun both => other both.1, ?_⟩
    exact iff_of_true (inBounds_ok _) fun ends => absurd ends other
  · by_cases ends : EndsWith front bytes clamavFound
    · rw [found ok ends]
      cases text : virusText front bytes fits with
      | error access =>
          refine ⟨iff_of_false (by intro same; cases same) ok, fun virus => ?_, ?_⟩
          · exact iff_of_false (by intro same; cases same) (by rintro ⟨_, impossible⟩; cases impossible)
          · exact iff_of_false (not_inBounds_error access) fun all => not_inBounds_error access (all ends)
      | ok name =>
          refine ⟨iff_of_false (by intro same; cases same) ok, fun virus => ?_, ?_⟩
          · rw [and_iff_right ends, Except.ok.injEq]
            exact ⟨fun same => Verdict.virus.inj (Except.ok.inj same), fun same => by rw [same]; rfl⟩
          · exact iff_of_true (inBounds_ok _) fun _ => inBounds_ok _
    · rw [failed ok ends]
      refine ⟨iff_of_false (by intro same; cases same) ok, fun virus => ?_, ?_⟩
      · exact iff_of_false (by intro same; cases same) fun both => ends both.1
      · exact iff_of_true (inBounds_ok _) fun some' => absurd some' ends

/-- Of one byte there is no name behind the eight bytes that are skipped. -/
theorem virusText_one (byte : UInt8) (fits : [byte].length < bufLen) :
    ¬ InBounds (virusText front [byte] fits) := by
  have size := front.size
  have past : ((received front [byte] fits).set (7 + [byte].length - clamavFound.length) 0).bytes.length ≤
      7 + clamavStream.length := by
    have eight : clamavStream.length = 8 := rfl
    simp only [Buffer.set, received, List.length_set, List.length_append, List.length_singleton, size]
    omega
  rw [virusText, inBounds_text_iff, List.drop_eq_nil_of_le past]
  exact List.not_mem_nil

/-- What stands in front of the " FOUND", without the blank before it. -/
theorem name_taken {name a b : Bytes} (same : 32 :: name ++ clamavFound = a ++ clamavFound ++ b) :
    (name ++ (clamavFound ++ [0])).take a.length = (a ++ [32]).tail := by
  have blank : clamavFound = 32 :: cstr "FOUND" := rfl
  have cons : 32 :: (name ++ (clamavFound ++ [0])).take a.length = a ++ [32] := by
    calc (32 : UInt8) :: (name ++ (clamavFound ++ [0])).take a.length
        = (32 :: name ++ clamavFound ++ [0]).take (a.length + 1) := by
          rw [List.append_assoc, List.cons_append, List.take_succ_cons]
      _ = (a ++ clamavFound ++ b ++ [0]).take (a.length + 1) := by rw [same]
      _ = a ++ [32] := by
          rw [List.append_assoc, List.append_assoc, List.take_append, List.take_of_length_le (by omega), blank]
          simp
  rw [← cons, List.tail_cons]

theorem name_taken_terminated {name a b : Bytes} (terminated : 0 ∉ name)
    (same : 32 :: name ++ clamavFound = a ++ clamavFound ++ b) : 0 ∉ (a ++ [32]).tail := by
  intro inside
  have inside' : (0 : UInt8) ∈ a ++ [32] := List.mem_of_mem_tail inside
  have whole : (0 : UInt8) ∈ 32 :: name ++ clamavFound := by
    rw [same, List.append_assoc]
    rcases List.mem_append.mp inside' with left | right
    · exact List.mem_append_left _ left
    · exact absurd right (by decide)
  rcases List.mem_append.mp whole with left | right
  · exact terminated ((List.mem_cons.mp left).resolve_left (by decide))
  · exact absurd right (by decide)

/-- The name that is stored has a blank at its end. -/
theorem virusText_some {name a b : Bytes} (terminated : 0 ∉ name)
    (same : 32 :: name ++ clamavFound = a ++ clamavFound ++ b)
    (fits : ((clamdReply (some name)).take (a.length + 14)).length < bufLen) :
    virusText front ((clamdReply (some name)).take (a.length + 14)) fits = .ok (a ++ [32]).tail := by
  have size := front.size
  have six : clamavFound.length = 6 := rfl
  have eight : clamavStream.length = 8 := rfl
  have lengths := congrArg List.length same
  simp only [List.length_append, List.length_cons, six] at lengths
  have length : ((clamdReply (some name)).take (a.length + 14)).length = a.length + 14 := by
    apply List.length_take_of_le
    rw [(clamdReply_some name).1]
    simp only [List.length_append, List.length_singleton, six, eight]
    omega
  -- what is behind "stream: "
  have text : ((clamdReply (some name)).take (a.length + 14)).drop 8 =
      (name ++ (clamavFound ++ [0])).take (a.length + 6) := by
    rw [List.drop_take, (clamdReply_some name).1, ← eight, List.drop_left, eight]
    rfl
  have begins := name_taken same
  have memory : ((received front ((clamdReply (some name)).take (a.length + 14)) fits).set
      (7 + ((clamdReply (some name)).take (a.length + 14)).length - clamavFound.length) 0).bytes.drop
      (7 + clamavStream.length) =
      (name ++ (clamavFound ++ [0])).take a.length ++ 0 ::
        ((name ++ (clamavFound ++ [0])).take (a.length + 6) ++ [0]).drop (a.length + 1) := by
    have place : 7 + (a.length + 14) - clamavFound.length = a.length + 15 := by omega
    have behind : (front.bytes ++ (clamdReply (some name)).take (a.length + 14) ++ [0]).drop 15 =
        (name ++ (clamavFound ++ [0])).take (a.length + 6) ++ [0] := by
      rw [List.append_assoc, show 15 = front.bytes.length + 8 by omega, ← List.drop_drop, List.drop_left,
        List.drop_append_of_le_length (by omega), text]
    have room : a.length + 6 ≤ (name ++ (clamavFound ++ [0])).length := by
      simp only [List.length_append, List.length_singleton, six]
      omega
    simp only [Buffer.set, received, length, place, eight]
    rw [List.drop_set, if_neg (by omega), behind, show a.length + 15 - (7 + 8) = a.length by omega,
      List.set_eq_take_append_cons_drop, if_pos (by rw [List.length_append, List.length_take]; omega),
      List.take_append_of_le_length (by rw [List.length_take]; omega), List.take_take,
      Nat.min_eq_left (Nat.le_add_right _ _)]
  unfold virusText Buffer.text Buffer.scan
  rw [memory, textFrom_append, begins]
  have whole : cText (a ++ [32]).tail = (a ++ [32]).tail := by
    refine List.takeWhile_eq_self_iff.mpr fun byte inside => ?_
    refine decide_eq_true fun nul => name_taken_terminated terminated same ?_
    subst nul
    exact inside
  rw [whole]

theorem clamavStore_injective (attrs : Table) : Function.Injective (clamavStore attrs) := by
  intro v w same
  have statuses := congrArg Prod.fst same
  have cleans := congrFun (congrArg Prod.snd same) "clamav_clean"
  have viruses := congrFun (congrArg Prod.snd same) "clamav_virus"
  cases v with
  | failed =>
      cases w with
      | failed => rfl
      | clean => cases statuses
      | virus name => cases statuses
  | clean =>
      cases w with
      | failed => cases statuses
      | clean => rfl
      | virus name => simp [clamavStore, vtableSetv] at viruses
  | virus name =>
      cases w with
      | failed => cases statuses
      | clean => simp [clamavStore, vtableSetv] at viruses
      | virus other =>
          simp only [clamavStore, vtableSetv, vtableSet_same, Option.some.injEq, Value.string, Value.scalar.injEq,
            Scalar.string.injEq] at viruses
          rw [viruses]

/-- With writes that are not short, the verdict is on the message. -/
theorem clamavQuery_eq (scan : Bytes → Option Bytes) {message : Bytes} (small : message.length < 2 ^ 32)
    {accepted : Nat → Option Nat}
    (whole : ∀ i bytes, (clamavWrites message)[i]? = some bytes → ∃ k, accepted i = some k ∧ bytes.length ≤ k)
    {n : Nat} (fits : n < bufLen) (attrs : Table) :
    clamavQuery front accepted (clamd scan n) message attrs =
      (clamavVerdict front (some ((clamdReply (scan message)).take n))).map (clamavStore attrs) := by
  have answer : (clamd scan n (clamavWrites message).flatten).map (·.take (bufLen - 1)) =
      some ((clamdReply (scan message)).take n) := by
    rw [clamd, inStream_writes message small, Option.map_some, Option.map_some, List.take_take,
      Nat.min_eq_right (by omega)]
  simp only [clamavQuery, writeAll_whole _ accepted whole, answer]
  cases clamavVerdict front (some ((clamdReply (scan message)).take n)) with
  | error access => rfl
  | ok verdict => rfl

theorem map_eq_ok_iff {verdict : Except BadAccess Verdict} (attrs : Table) (v : Verdict) :
    verdict.map (clamavStore attrs) = .ok (clamavStore attrs v) ↔ verdict = .ok v := by
  cases verdict with
  | error access => exact iff_of_false (by intro same; cases same) (by intro same; cases same)
  | ok w =>
      constructor
      · intro same
        rw [clamavStore_injective attrs (Except.ok.inj same)]
      · intro same
        rw [same]
        rfl

theorem inBounds_map_iff {α β : Type} {x : Except BadAccess α} (f : α → β) : InBounds (x.map f) ↔ InBounds x := by
  cases x with
  | error access => exact iff_of_false (not_inBounds_error access) (not_inBounds_error access)
  | ok a => exact iff_of_true (inBounds_ok _) (inBounds_ok a)

/-- The text with a blank is not the name. -/
theorem blank_behind {name a b : Bytes} (same : 32 :: name ++ clamavFound = a ++ clamavFound ++ b) :
    (a ++ [32]).tail ≠ name := by
  intro equal
  have cons : a ++ [32] = 32 :: name := by
    rw [← equal]
    cases a with
    | nil => rfl
    | cons c a =>
        have first : (32 : UInt8) = c := (List.cons.inj same).1
        rw [first]
        rfl
  rw [← cons, List.append_assoc, List.append_assoc] at same
  have twice : [32] ++ clamavFound = clamavFound ++ b := List.append_cancel_left same
  have second := congrArg (·[1]?) twice
  simp [clamavFound, cstr] at second

/-! ## The verdict on the first bytes of a reply -/

theorem reply_fits {found : Option Bytes} {n : Nat} (inside : n ≤ (clamdReply found).length) (fits : n < bufLen) :
    ((clamdReply found).take n).length < bufLen := by
  rw [List.length_take_of_le inside]
  exact fits

theorem reply_filled {found : Option Bytes} {n : Nat} (some' : 0 < n) (inside : n ≤ (clamdReply found).length) :
    (clamdReply found).take n ≠ [] := by
  apply List.ne_nil_of_length_pos
  rw [List.length_take_of_le inside]
  exact some'

/-- One byte is not enough for a name. -/
theorem virusText_first (found : Option Bytes) (fits : ((clamdReply found).take 1).length < bufLen) :
    ¬ InBounds (virusText front ((clamdReply found).take 1) fits) := by
  obtain ⟨rest, cons⟩ := clamdReply_cons found
  have single : (clamdReply found).take 1 = [115] := by rw [cons]; rfl
  revert fits
  rw [single]
  exact virusText_one front 115

theorem reply_clean_iff {found : Option Bytes} {n : Nat} (some' : 0 < n)
    (inside : n ≤ (clamdReply found).length) (fits : n < bufLen) :
    clamavVerdict front (some ((clamdReply found).take n)) = .ok .clean ↔
      (found = none ∧ n = (clamdReply none).length) ∨
      (∃ name a b, found = some name ∧ name = a ++ clamavOk ++ b ∧ n = a.length + 11) ∨
      (n = 1 ∧ front.EndsIn clamavOk) := by
  obtain ⟨clean, -, -⟩ := clamavVerdict_iff front (reply_fits inside fits) (reply_filled some' inside)
  rw [clean]
  cases found with
  | none =>
      rw [clean_endsWith_ok front some' inside]
      constructor
      · rintro (full | one)
        · exact .inl ⟨rfl, full⟩
        · exact .inr (.inr one)
      · rintro (⟨_, full⟩ | ⟨_, _, _, impossible, _⟩ | one)
        · exact .inl full
        · cases impossible
        · exact .inr one
  | some name =>
      rw [virus_endsWith_ok front name some' inside]
      constructor
      · rintro (⟨a, b, same, place⟩ | one)
        · exact .inr (.inl ⟨name, a, b, rfl, same, place⟩)
        · exact .inr (.inr one)
      · rintro (⟨impossible, _⟩ | ⟨other, a, b, same, split, place⟩ | one)
        · cases impossible
        · cases same
          exact .inl ⟨a, b, split, place⟩
        · exact .inr one

theorem reply_virus_iff {found : Option Bytes} (terminated : ∀ name, found = some name → 0 ∉ name) {n : Nat}
    (some' : 0 < n) (inside : n ≤ (clamdReply found).length) (fits : n < bufLen) (v : Bytes) :
    clamavVerdict front (some ((clamdReply found).take n)) = .ok (.virus v) ↔ ∃ name a b, found = some name ∧
      32 :: name ++ clamavFound = a ++ clamavFound ++ b ∧ n = a.length + 14 ∧ v = (a ++ [32]).tail := by
  obtain ⟨-, virus, -⟩ := clamavVerdict_iff front (reply_fits inside fits) (reply_filled some' inside)
  rw [virus]
  cases found with
  | none =>
      refine iff_of_false ?_ ?_
      · rintro ⟨ends, text⟩
        obtain ⟨rfl, -⟩ := (clean_endsWith_found front some' inside).mp ends
        exact virusText_first front none _ ⟨v, text⟩
      · rintro ⟨name, _, _, impossible, _⟩
        cases impossible
  | some name =>
      constructor
      · rintro ⟨ends, text⟩
        rcases (virus_endsWith_found front name some' inside).mp ends with ⟨a, b, same, rfl⟩ | ⟨rfl, -⟩
        · rw [virusText_some front (terminated name rfl) same] at text
          exact ⟨name, a, b, rfl, same, rfl, (Except.ok.inj text).symm⟩
        · exact absurd ⟨v, text⟩ (virusText_first front (some name) _)
      · rintro ⟨other, a, b, known, same, rfl, rfl⟩
        cases known
        refine ⟨(virus_endsWith_found front name some' inside).mpr (.inl ⟨a, b, same, rfl⟩), ?_⟩
        exact virusText_some front (terminated name rfl) same _

theorem reply_inBounds_iff {found : Option Bytes} (terminated : ∀ name, found = some name → 0 ∉ name) {n : Nat}
    (some' : 0 < n) (inside : n ≤ (clamdReply found).length) (fits : n < bufLen) :
    InBounds (clamavVerdict front (some ((clamdReply found).take n))) ↔ ¬ (n = 1 ∧ front.EndsIn clamavFound) := by
  obtain ⟨-, -, bounds⟩ := clamavVerdict_iff front (reply_fits inside fits) (reply_filled some' inside)
  rw [bounds]
  constructor
  · rintro all ⟨rfl, ends⟩
    refine virusText_first front found _ (all ?_)
    cases found with
    | none => exact (clean_endsWith_found front some' inside).mpr ⟨rfl, ends⟩
    | some name => exact (virus_endsWith_found front name some' inside).mpr (.inr ⟨rfl, ends⟩)
  · intro none' ends
    cases found with
    | none => exact absurd ((clean_endsWith_found front some' inside).mp ends) none'
    | some name =>
        rcases (virus_endsWith_found front name some' inside).mp ends with ⟨a, b, same, rfl⟩ | chance
        · exact ⟨_, virusText_some front (terminated name rfl) same _⟩
        · exact absurd chance none'

end Stored

/-- A virus whose name has an `OK` in it. -/
def sampleScan : Bytes → Option Bytes := fun _ => some (cstr "Win.TrOKjan")

end Mopher.Clamav
